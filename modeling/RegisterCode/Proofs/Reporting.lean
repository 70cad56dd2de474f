import RegisterCode.Proofs.Shadowing

/-!
# What a compilation reports

A compilation writes two things, a listing and a log of events. When it fails, the listing is lost
but the log is kept, so the log is all that tells how far the compilation got. It can be trusted if
it follows the listing at every point where the compilation may stop.

`Mirrors x` says so for a step inside a function: whether it succeeds or fails, it has reported the
slots that its instructions reserve, in the order of the instructions, and nothing else. Declaring
a variable reports the slot before the instruction that reserves it is written, and nothing between
the two can fail (`mirrors_declareVar`). `FunctionsLogged` says what a list of functions writes:
each of them in turn, up to the first that fails.

Results:
* `mirrors_lowerExpr`, `mirrors_lowerStmt`: the walk over the nodes.
* `functionsLogged`: a list of functions.
* `Compiler.events_mirror_run`: all of it together.
-/

namespace RegisterCode

/-- The slot that an instruction reserves for the time of a call. -/
def Instr.localSlot? : Instr → Option Label
  | .alloca slot => some slot
  | .global _ | .declare _ | .define _ | .store .. | .load .. | .binary .. | .call .. | .ret
  | .close => none

/-- The reports about the local variables of some code. -/
def variableReports (code : List Instr) : List Event :=
  (code.filterMap Instr.localSlot?).map .variableDeclared

/-- The reports about a function with the name `text` for which `code` was written. -/
def FunctionDecl.reports (f : FunctionDecl) (text : String) (code : List Instr) : List Event :=
  match f.body with
  | none => [.functionDeclared text]
  | some _ => .functionStarted text :: variableReports code

theorem variableReports_append (code code' : List Instr) :
    variableReports (code ++ code') = variableReports code ++ variableReports code' := by
  rw [variableReports, List.filterMap_append, List.map_append]
  rfl

theorem variableReports_singleton {i : Instr} (h : i.localSlot? = none) :
    variableReports [i] = [] := by
  rw [variableReports, List.filterMap_cons_none h]
  rfl

namespace Lowering

variable {α β : Type} {s s' s'' : State} {ctx : Context}

/-! ## Code and events -/

/-- From `s` to `s'` the instructions `code` and the events `log` were written. -/
structure State.Writes (s : State) (code : List Instr) (log : List Event) (s' : State) : Prop where
  listing_eq : s'.listing = s.listing.append code
  events_eq : s'.events.toList = s.events.toList ++ log

theorem State.Writes.refl (s : State) : s.Writes [] [] s := ⟨by simp, by simp⟩

theorem State.Writes.trans {code code' : List Instr} {log log' : List Event}
    (h : s.Writes code log s') (h' : s'.Writes code' log' s'') :
    s.Writes (code ++ code') (log ++ log') s'' := by
  constructor
  · rw [h'.listing_eq, h.listing_eq, Listing.append_append]
  · rw [h'.events_eq, h.events_eq, List.append_assoc]

theorem finalState_inScope (x : LowerM Unit) (s : State) :
    finalState (inScope x s) =
      finalState (leaveScope (finalState (x { s with scopes := s.scopes.enter }))) := by
  rw [inScope_eq]
  cases x { s with scopes := s.scopes.enter } with
  | ok a s₁ => rfl
  | error e s₁ =>
    dsimp only [finalState]
    cases leaveScope s₁ <;> rfl

/-- However the step ends, the events that it wrote are the reports about the local variables of
the code that it wrote. -/
def Mirrors (x : LowerM α) : Prop :=
  ∀ s : State, ∃ code, s.Writes code (variableReports code) (finalState (x s))

namespace Mirrors

variable {x : LowerM α} {f : α → LowerM β}

theorem bind (hx : Mirrors x) (hf : ∀ a, Mirrors (f a)) : Mirrors (x >>= f) := by
  intro s
  obtain ⟨code, hcode⟩ := hx s
  cases hrun : x s with
  | error e s₁ =>
    rw [hrun] at hcode
    rw [bind_of_error hrun]
    exact ⟨code, hcode⟩
  | ok a s₁ =>
    rw [hrun] at hcode
    obtain ⟨code', hcode'⟩ := hf a s₁
    rw [bind_of_ok hrun]
    refine ⟨code ++ code', ?_⟩
    rw [variableReports_append]
    exact hcode.trans hcode'

theorem forM {γ : Type} {xs : List γ} {f : γ → LowerM Unit} (h : ∀ a, Mirrors (f a)) :
    Mirrors (xs.forM f) := by
  induction xs with
  | nil => exact fun s => ⟨[], .refl s⟩
  | cons a xs ih => exact (h a).bind fun _ => ih

/-- Opening and closing a scope writes nothing, also if there is no scope to close. -/
theorem inScope {x : LowerM Unit} (h : Mirrors x) : Mirrors (inScope x) := by
  intro s
  obtain ⟨code, hlisting, hevents⟩ := h { s with scopes := s.scopes.enter }
  refine ⟨code, ?_⟩
  rw [finalState_inScope, leaveScope_eq]
  cases (finalState (x { s with scopes := s.scopes.enter })).scopes.leave with
  | ok _ c => exact ⟨hlisting, hevents⟩
  | error f c => exact ⟨hlisting, hevents⟩

end Mirrors

theorem Reads.mirrors {x : LowerM α} (h : Reads x) : Mirrors x :=
  fun s => ⟨[], (h s).symm ▸ .refl s⟩

theorem mirrors_emit {i : Instr} (h : i.localSlot? = none) : Mirrors (emit i) := by
  intro s
  refine ⟨[i], ?_⟩
  rw [emit_eq, variableReports_singleton h]
  exact ⟨rfl, (List.append_nil _).symm⟩

theorem mirrors_emitInto {i : Register → Instr} (h : ∀ r, (i r).localSlot? = none) :
    Mirrors (do
      let target ← freshRegister
      emit (i target)
      return .reg target : LowerM Value) := by
  intro s
  refine ⟨[i ⟨s.registers.allocated⟩], ?_⟩
  rw [emitInto_eq, variableReports_singleton (h _)]
  exact ⟨rfl, (List.append_nil _).symm⟩

/-! ## The walk over the nodes -/

/-- **An expression reports what its code reserves.** -/
theorem mirrors_lowerExpr (level : Nat) (id : ExprId) : Mirrors (lowerExpr ctx level id) := by
  induction level generalizing id with
  | zero => exact (reads_throw _).mirrors
  | succ level ih =>
    unfold lowerExpr
    refine (reads_orFault _).mirrors.bind fun e => ?_
    cases e.kind with
    | ident n =>
      exact (reads_resolveSlot n e.span).mirrors.bind fun slot => mirrors_emitInto fun _ => rfl
    | int value =>
      dsimp only
      cases literal? value with
      | some n => exact mirrors_emitInto fun _ => rfl
      | none => exact (reads_rejectExpr id _).mirrors
    | binary op left right =>
      dsimp only
      cases op.opcode? with
      | some op =>
        exact (ih left).bind fun l => (ih right).bind fun r => mirrors_emitInto fun _ => rfl
      | none => exact (reads_rejectExpr id _).mirrors
    | unary op operand =>
      cases op with
      | neg => exact (ih operand).bind fun v => mirrors_emitInto fun _ => rfl
      | pos => exact ih operand
      | not => exact (reads_rejectExpr id _).mirrors
    | paren inner => exact ih inner
    | call callee args =>
      refine (reads_orFault _).mirrors.bind fun ids => ?_
      rcases ids with - | ⟨arg, - | ⟨arg', ids⟩⟩
      · exact (reads_rejectExpr id _).mirrors
      · refine reads_get.mirrors.bind fun s => ?_
        cases s.scopes.lookupUniverse callee with
        | none => exact (reads_rejectExpr id _).mirrors
        | some symbol =>
          dsimp only
          cases symbol.isBuiltin with
          | true => exact (ih arg).bind fun v => mirrors_emitInto fun _ => rfl
          | false => exact (reads_rejectExpr id _).mirrors
      · exact (reads_rejectExpr id _).mirrors
    | error => exact (reads_rejectExpr id _).mirrors

/-- Between the report about a variable and the instruction that reserves its slot nothing fails. -/
theorem mirrors_declareVar (id : StmtId) (n : Name) (span : Span) (v : Value) :
    Mirrors (ctx.declareVar id n span v) := by
  refine (reads_orFault _).mirrors.bind fun text s => ?_
  refine ⟨[.alloca (ctx.mangling.localSlot text span.start),
    .store v (ctx.mangling.localSlot text span.start)], ?_, ?_⟩
  · exact (Listing.append_append s.listing [_] [_])
  · exact Array.toList_push

theorem mirrors_lowerVar (id : StmtId) (n : Name) (init : Option ExprId) (span : Span) :
    Mirrors (ctx.lowerVar id n init span) := by
  rw [lowerVar_eq]
  refine Mirrors.bind ?_ fun v => mirrors_declareVar id n span v
  cases init with
  | none => exact fun s => ⟨[], .refl s⟩
  | some init => exact mirrors_lowerExpr _ init

/-- **A statement reports the slots that its code reserves.** -/
theorem mirrors_lowerStmt (level : Nat) (id : StmtId) : Mirrors (lowerStmt ctx level id) := by
  induction level generalizing id with
  | zero => exact (reads_throw _).mirrors
  | succ level ih =>
    unfold lowerStmt
    refine (reads_orFault _).mirrors.bind fun st => ?_
    cases st.kind with
    | var n init => exact mirrors_lowerVar id n init st.span
    | assign target value =>
      exact (reads_resolveSlot target st.span).mirrors.bind fun slot =>
        (mirrors_lowerExpr _ value).bind fun v => mirrors_emit rfl
    | block body => exact .inScope ((reads_orFault _).mirrors.bind fun ids => .forM ih)
    | expr value => exact (mirrors_lowerExpr _ value).bind fun _ s => ⟨[], .refl s⟩
    | error => exact (reads_rejectStmt id _).mirrors

/-! ## Functions -/

variable {package : String}

/-- However a function ends, the events are the reports about its code. -/
theorem lowerFunction_writes {f : FunctionDecl} {text : String}
    (named : ctx.names.text? f.name = some text) (package : String) (s : State) :
    ∃ code, s.Writes code (f.reports text code) (finalState (ctx.lowerFunction package f s)) := by
  have hread : orFault (ctx.names.lookup f.name) s = .ok text s :=
    orFault_eq_ok.mpr ⟨InternTable.lookup_eq_ok_iff.mpr named, rfl⟩
  unfold Context.lowerFunction
  rw [bind_of_ok hread]
  cases hb : f.body with
  | none =>
    refine ⟨[.declare (ctx.mangling.function package text)], rfl, ?_⟩
    rw [FunctionDecl.reports, hb]
    exact Array.toList_push
  | some body =>
    have hbody : Mirrors (inScope do
        emit (.define (ctx.mangling.function package text))
        ctx.lowerStmt body
        emit .ret
        emit .close) :=
      .inScope <| (mirrors_emit rfl).bind fun _ => (mirrors_lowerStmt _ body).bind fun _ =>
        (mirrors_emit rfl).bind fun _ => mirrors_emit rfl
    obtain ⟨code, hlisting, hevents⟩ :=
      hbody { s with events := s.events.push (.functionStarted text) }
    refine ⟨code, hlisting, ?_⟩
    rw [FunctionDecl.reports, hb]
    rw [Array.toList_push, List.append_assoc] at hevents
    exact hevents

/-- `FunctionsLogged ctx package s fs code log r`: from `s` the functions `fs` are emitted one after
the other, up to the end or to the first that fails; the end is `r`. For each of them in turn, the
one that fails included, `code` has the instructions that were written and `log` the reports about
these. -/
inductive FunctionsLogged (ctx : Context) (package : String) :
    State → List FunctionDecl → List Instr → List Event → EStateM.Result Failure State Unit →
    Prop where
  | done {s : State} : FunctionsLogged ctx package s [] [] [] (.ok () s)
  | next {s s₁ : State} {f : FunctionDecl} {fs : List FunctionDecl} {text : String}
      {code code' : List Instr} {log : List Event} {r : EStateM.Result Failure State Unit}
      (named : ctx.names.text? f.name = some text)
      (succeeds : ctx.lowerFunction package f s = .ok () s₁)
      (writes : s.Writes code (f.reports text code) s₁)
      (rest : FunctionsLogged ctx package s₁ fs code' log r) :
      FunctionsLogged ctx package s (f :: fs) (code ++ code') (f.reports text code ++ log) r
  | failed {s s₁ : State} {f : FunctionDecl} {fs : List FunctionDecl} {text : String}
      {code : List Instr} {e : Failure} (named : ctx.names.text? f.name = some text)
      (fails : ctx.lowerFunction package f s = .error e s₁)
      (writes : s.Writes code (f.reports text code) s₁) :
      FunctionsLogged ctx package s (f :: fs) code (f.reports text code) (.error e s₁)

/-- What was written in all. -/
theorem FunctionsLogged.writes {fs : List FunctionDecl} {code : List Instr} {log : List Event}
    {r : EStateM.Result Failure State Unit} (h : FunctionsLogged ctx package s fs code log r) :
    s.Writes code log (finalState r) := by
  induction h with
  | done => exact .refl _
  | next _ _ writes _ ih => exact writes.trans ih
  | failed _ _ writes => exact writes

/-- **Functions are logged one after the other, up to the first that fails.** -/
theorem functionsLogged {fs : List FunctionDecl}
    (named : ∀ f ∈ fs, ∃ text, ctx.names.text? f.name = some text) (package : String) (s : State) :
    ∃ code log, FunctionsLogged ctx package s fs code log
      (fs.forM (ctx.lowerFunction package) s) := by
  induction fs generalizing s with
  | nil => exact ⟨[], [], .done⟩
  | cons f fs ih =>
    obtain ⟨text, htext⟩ := named f List.mem_cons_self
    obtain ⟨code, hwrites⟩ := lowerFunction_writes htext package s
    have hcons : (f :: fs).forM (ctx.lowerFunction package) s =
        (ctx.lowerFunction package f >>= fun _ => fs.forM (ctx.lowerFunction package)) s := rfl
    rw [hcons]
    cases hrun : ctx.lowerFunction package f s with
    | ok a s₁ =>
      rw [hrun] at hwrites
      obtain ⟨code', log, hrest⟩ := ih (fun g hg => named g (List.mem_cons_of_mem f hg)) s₁
      rw [bind_of_ok hrun]
      exact ⟨_, _, .next htext hrun hwrites hrest⟩
    | error e s₁ =>
      rw [hrun] at hwrites
      rw [bind_of_error hrun]
      exact ⟨_, _, .failed htext hrun hwrites⟩

/-- Binding the package's variables reports nothing. -/
theorem lowerGlobals_events {index : Nat} {gs : List GlobalDecl}
    (h : ctx.lowerGlobals package index gs s = .ok () s') : s'.events = s.events := by
  induction gs generalizing index s with
  | nil =>
    obtain ⟨-, rfl⟩ := pure_eq_ok.mp h
    rfl
  | cons g gs ih =>
    rw [Context.lowerGlobals] at h
    obtain ⟨text, s₁, hread, h⟩ := bind_eq_ok.mp h
    obtain ⟨-, rfl⟩ := orFault_eq_ok.mp hread
    obtain ⟨_, s₁, hbind, h⟩ := bind_eq_ok.mp h
    cases hbind
    obtain ⟨_, s₁, hemit, h⟩ := bind_eq_ok.mp h
    cases hemit
    exact (ih h :)

end Lowering

/-! ## Source units -/

namespace Compiler

open Lowering

variable {c : Compiler} {names : NameTable} {u : SourceUnit} {package : String}

/-- Emit the head of a listing, up to the functions. -/
def headUnit (c : Compiler) (ctx : Context) (package : String) (u : SourceUnit) : LowerM Unit := do
  c.openUnit ctx package u
  unless u.globals.isEmpty do
    emitBlankLine

/-- Emit what follows the functions. -/
def endUnit (c : Compiler) (ctx : Context) (package : String) (u : SourceUnit) : LowerM Unit := do
  if c.isEntry ctx.names u then
    report (.trampolineAppended package)
    emitVerbatim c.builtins.trampoline

theorem lowerUnit_eq_functions (c : Compiler) (ctx : Context) (package : String) (u : SourceUnit) :
    c.lowerUnit ctx package u = c.headUnit ctx package u >>= fun _ =>
      u.functions.forM (ctx.lowerFunction package) >>= fun _ => c.endUnit ctx package u := by
  rw [lowerUnit_eq, headUnit, bind_assoc]
  unfold fillUnit endUnit
  cases u.globals.isEmpty <;> rfl

/-- The head of a listing reports nothing. -/
theorem exists_headed (c : Compiler) (hu : u.WellFormed names) :
    ∃ package start, names.lookup u.package = .ok package ∧
      c.headUnit (c.context names u) package u (c.startState names u package) = .ok () start ∧
      start.events = (c.startState names u package).events := by
  obtain ⟨package, symbols, s, hp, hopen, -, -⟩ := exists_opened c hu
  obtain ⟨s₁, hopened, hs₁⟩ : ∃ s₁ : State,
      c.openUnit (c.context names u) package u (c.startState names u package) =
        (c.context names u).lowerGlobals package 0 u.globals s₁ ∧
      s₁.events = (c.startState names u package).events := ⟨_, rfl, rfl⟩
  have hevents : s.events = (c.startState names u package).events :=
    (lowerGlobals_events (hopened.symm.trans hopen)).trans hs₁
  cases hempty : u.globals.isEmpty with
  | true =>
    refine ⟨package, s, hp, ?_, hevents⟩
    rw [headUnit, bind_of_ok hopen, hempty]
    rfl
  | false =>
    refine ⟨package, { s with listing := s.listing.blankLine }, hp, ?_, hevents⟩
    rw [headUnit, bind_of_ok hopen, hempty]
    rfl

/-- **The events mirror the run.** A well-formed unit is compiled or rejected. In either case the
log begins with the package and the numbers of its variables and functions. Then come the functions
up to the first that fails, each with the slots that its code reserves (`FunctionsLogged`). Only if
no function fails and the text that starts the program is appended, the log ends with that. -/
theorem events_mirror_run (c : Compiler) (hu : u.WellFormed names) :
    ∃ package start code log ended, names.text? u.package = some package ∧
      c.headUnit (c.context names u) package u (c.startState names u package) = .ok () start ∧
      FunctionsLogged (c.context names u) package start u.functions code log ended ∧
      ((∃ s, ended = .ok () s ∧
          (c.compile names u).outcome = .ok
            (if c.isEntry (c.tableWithBuiltins names) u then
              (start.listing.append code).verbatim c.builtins.trampoline
            else start.listing.append code) ∧
          (c.compile names u).events.toList =
            .unitStarted package u.globals.length u.functions.length :: log ++
              if c.isEntry (c.tableWithBuiltins names) u then [.trampolineAppended package]
              else []) ∨
        ∃ r s, ended = .error (.rejected r) s ∧
          (c.compile names u).outcome = .error (.rejected r) ∧
          (c.compile names u).events.toList =
            .unitStarted package u.globals.length u.functions.length :: log) := by
  obtain ⟨package, start, hp, hhead, hstart⟩ := exists_headed c hu
  have hnamed : ∀ f ∈ u.functions, ∃ text, (c.context names u).names.text? f.name = some text := by
    intro f hf
    obtain ⟨text, htext⟩ := InternTable.exists_text (hu.functions f hf)
    exact ⟨text, tableWithBuiltins_extends c names _ _ htext⟩
  obtain ⟨code, log, hlogged⟩ := functionsLogged hnamed package start
  have hcompile : c.compile names u = leaves (c.tableWithBuiltins names)
      ((u.functions.forM ((c.context names u).lowerFunction package) >>= fun _ =>
        c.endUnit (c.context names u) package u) start) := by
    rw [compile_eq_leaves hp, lowerUnit_eq_functions, bind_of_ok hhead]
  have hjudged : (∃ listing, (c.compile names u).outcome = .ok listing) ∨
      ∃ r, (c.compile names u).outcome = .error (.rejected r) := by
    obtain ⟨bodies, hbodies⟩ := hu.exists_bodies
    have h := compile_judged_builtinLayer (c := c) hu hbodies
    split at h
    · exact .inl h
    · obtain ⟨r, -, hr⟩ := h
      exact .inr ⟨r, hr⟩
  refine ⟨package, start, code, log, _, InternTable.lookup_eq_ok_iff.mp hp, hhead, hlogged, ?_⟩
  obtain ⟨hlisting, hevents⟩ := hlogged.writes
  rw [hstart] at hevents
  cases hrun : u.functions.forM ((c.context names u).lowerFunction package) start with
  | ok a s =>
    rw [hrun] at hlisting hevents
    change s.events.toList = _ at hevents
    rw [bind_of_ok hrun] at hcompile
    refine .inl ⟨s, rfl, ?_⟩
    rw [hcompile, ← hlisting]
    unfold endUnit
    cases hentry : c.isEntry (c.tableWithBuiltins names) u with
    | true =>
      have hentry' : c.isEntry (c.context names u).names u = true := hentry
      simp only [hentry', if_true]
      refine ⟨rfl, ?_⟩
      change (s.events.push (.trampolineAppended package)).toList = _
      rw [Array.toList_push, hevents]
      rfl
    | false =>
      have hentry' : c.isEntry (c.context names u).names u = false := hentry
      simp only [hentry', Bool.false_eq_true, if_false, List.append_nil]
      exact ⟨rfl, hevents⟩
  | error e s =>
    rw [hrun] at hevents
    rw [bind_of_error hrun] at hcompile
    rw [hcompile] at hjudged ⊢
    rcases hjudged with ⟨listing, hok⟩ | ⟨r, hr⟩
    · exact absurd hok (by simp [leaves])
    · obtain rfl : e = .rejected r := Except.error.inj hr
      exact .inr ⟨r, s, rfl, rfl, hevents⟩

/-- The unit that is not accepted fails in its function, behind the declaration of one variable. -/
theorem events_mirror_run_faulty :
    Counter.faulty.WellFormed Counter.names ∧
    ∃ start code r s, FunctionsLogged (({} : Compiler).context Counter.names Counter.faulty) "main"
      start Counter.faulty.functions code
      [.functionStarted "main", .variableDeclared ⟨"%local_tick.pos.14"⟩]
      (.error (.rejected r) s) := by
  have hwf : Counter.faulty.WellFormed Counter.names :=
    Counter.faulty_inBounds.wellFormed Counter.faulty_descending
  have hevents : (({} : Compiler).compile Counter.names Counter.faulty).events.toList =
      [.unitStarted "main" 1 1, .functionStarted "main",
        .variableDeclared ⟨"%local_tick.pos.14"⟩] := by decide +kernel
  have hfails : (({} : Compiler).compile Counter.names Counter.faulty).outcome.toOption = none := by
    decide +kernel
  obtain ⟨package, start, code, log, ended, -, -, hlogged, ⟨s, -, hok, -⟩ | ⟨r, s, rfl, -, hlog⟩⟩ :=
    events_mirror_run ({} : Compiler) hwf
  · rw [hok] at hfails
    exact absurd hfails (Option.some_ne_none _)
  · rw [hevents] at hlog
    cases hlog
    exact ⟨hwf, start, code, r, s, hlogged⟩

end Compiler

end RegisterCode
