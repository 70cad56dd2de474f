import RegisterCode.Compiler
import RegisterCode.Proofs.Steps
import RegisterCode.Proofs.Tree

/-!
# The code of a tree

`ExprCode` and `StmtsCode` say which code a source tree is translated to, rule by rule: given what
the names stand for and the number of the next register, which instructions, which registers, and
for statements which bindings afterwards. They know nothing of nodes, states or failures. Whatever
is proved of emitted code is proved by induction over these rules.

Results: a successful walk over the nodes emits the code of the tree below them
(`lowerExpr_translates`, `lowerStmt_translates`).
-/

namespace RegisterCode

/-! ## The rules -/

/-- `ExprCode univ ls k t code r`: with the variables `ls`, the builtin functions `univ` and `k` as
next register, the tree `t` is translated to `code`, which leaves its value in register `r`. -/
inductive ExprCode (univ : Layer) (ls : List Layer) :
    Nat → ExprTree → List Instr → Nat → Prop where
  | ident {k : Nat} {site : Site ExprId} {n : Name} {symbol : Symbol}
      (bound : Layer.find ls n = some symbol) :
      ExprCode univ ls k (.ident site n) [.load ⟨k⟩ symbol.label] k
  | int {k : Nat} {site : Site ExprId} {value : Int} {n : Int32} (fits : literal? value = some n) :
      ExprCode univ ls k (.int site value) [.binary ⟨k⟩ .add .zero (.imm n)] k
  | binary {k a b : Nat} {site : Site ExprId} {op : BinaryOp} {opcode : Opcode}
      {left right : ExprTree} {code code' : List Instr} (arithmetic : op.opcode? = some opcode)
      (first : ExprCode univ ls k left code a) (second : ExprCode univ ls (a + 1) right code' b) :
      ExprCode univ ls k (.binary site op left right)
        (code ++ code' ++ [.binary ⟨b + 1⟩ opcode (.reg ⟨a⟩) (.reg ⟨b⟩)]) (b + 1)
  | neg {k a : Nat} {site : Site ExprId} {t : ExprTree} {code : List Instr}
      (operand : ExprCode univ ls k t code a) :
      ExprCode univ ls k (.unary site .neg t)
        (code ++ [.binary ⟨a + 1⟩ .sub .zero (.reg ⟨a⟩)]) (a + 1)
  | pos {k a : Nat} {site : Site ExprId} {t : ExprTree} {code : List Instr}
      (operand : ExprCode univ ls k t code a) : ExprCode univ ls k (.unary site .pos t) code a
  | paren {k a : Nat} {site : Site ExprId} {t : ExprTree} {code : List Instr}
      (inner : ExprCode univ ls k t code a) : ExprCode univ ls k (.paren site t) code a
  | call {k a : Nat} {site : Site ExprId} {f : Name} {symbol : Symbol} {arg : ExprTree}
      {code : List Instr} (builtin : univ f = some symbol)
      (argument : ExprCode univ ls k arg code a) :
      ExprCode univ ls k (.call site f [arg])
        (code ++ [.call ⟨a + 1⟩ symbol.label (.reg ⟨a⟩)]) (a + 1)

/-- The code of an initial value: its value, and the next register. -/
inductive InitCode (univ : Layer) (ls : List Layer) :
    Nat → Option ExprTree → List Instr → Value → Nat → Prop where
  | zero {k : Nat} : InitCode univ ls k none [] .zero k
  | expr {k a : Nat} {t : ExprTree} {code : List Instr} (value : ExprCode univ ls k t code a) :
      InitCode univ ls k (some t) code (.reg ⟨a⟩) (a + 1)

/-- `StmtsCode m names univ ls k ts code ls' k'`: the statements `ts`, one after the other, are
translated to `code`; behind them the variables are `ls'` and the next register is `k'`. -/
inductive StmtsCode (m : Mangling) (names : NameTable) (univ : Layer) :
    List Layer → Nat → List StmtTree → List Instr → List Layer → Nat → Prop where
  | nil {ls : List Layer} {k : Nat} : StmtsCode m names univ ls k [] [] ls k
  | var {l : Layer} {ls ls' : List Layer} {k k₁ k' : Nat} {site : Site StmtId} {n : Name}
      {text : String} {init : Option ExprTree} {v : Value} {rest : List StmtTree}
      {code code' : List Instr} (value : InitCode univ (l :: ls) k init code v k₁)
      (named : names.text? n = some text)
      (next : StmtsCode m names univ
        (l.bind ⟨n, m.localSlot text site.span.start, .declared site.id⟩ :: ls) k₁ rest code'
        ls' k') :
      StmtsCode m names univ (l :: ls) k (.var site n init :: rest)
        (code ++ [.alloca (m.localSlot text site.span.start),
          .store v (m.localSlot text site.span.start)] ++ code') ls' k'
  | assign {ls ls' : List Layer} {k a k' : Nat} {site : Site StmtId} {n : Name} {symbol : Symbol}
      {t : ExprTree} {rest : List StmtTree} {code code' : List Instr}
      (bound : Layer.find ls n = some symbol) (value : ExprCode univ ls k t code a)
      (next : StmtsCode m names univ ls (a + 1) rest code' ls' k') :
      StmtsCode m names univ ls k (.assign site n t :: rest)
        (code ++ [.store (.reg ⟨a⟩) symbol.label] ++ code') ls' k'
  | block {ls inner ls' : List Layer} {k k₁ k' : Nat} {site : Site StmtId}
      {body rest : List StmtTree} {code code' : List Instr}
      (within : StmtsCode m names univ (Layer.empty :: ls) k body code inner k₁)
      (next : StmtsCode m names univ ls k₁ rest code' ls' k') :
      StmtsCode m names univ ls k (.block site body :: rest) (code ++ code') ls' k'
  | expr {ls ls' : List Layer} {k a k' : Nat} {site : Site StmtId} {t : ExprTree}
      {rest : List StmtTree} {code code' : List Instr} (value : ExprCode univ ls k t code a)
      (next : StmtsCode m names univ ls (a + 1) rest code' ls' k') :
      StmtsCode m names univ ls k (.expr site t :: rest) (code ++ code') ls' k'

namespace StmtsCode

variable {m : Mangling} {names : NameTable} {univ : Layer} {ls ls₁ ls₂ : List Layer}
  {k k₁ k₂ : Nat} {ts ts' : List StmtTree} {code code' : List Instr}

/-- The code of two lists of statements, one behind the other. -/
theorem append (h : StmtsCode m names univ ls k ts code ls₁ k₁)
    (h' : StmtsCode m names univ ls₁ k₁ ts' code' ls₂ k₂) :
    StmtsCode m names univ ls k (ts ++ ts') (code ++ code') ls₂ k₂ := by
  induction h with
  | nil => exact h'
  | var value named _ ih =>
    rw [List.append_assoc]
    exact .var value named (ih h')
  | assign bound value _ ih =>
    rw [List.append_assoc]
    exact .assign bound value (ih h')
  | block within _ _ ih =>
    rw [List.append_assoc]
    exact .block within (ih h')
  | expr value _ ih =>
    rw [List.append_assoc]
    exact .expr value (ih h')

/-- Statements change no layer but the innermost. -/
theorem outer_eq {l : Layer} (h : StmtsCode m names univ (l :: ls) k ts code ls₁ k₁) :
    ∃ l', ls₁ = l' :: ls := by
  generalize hls : l :: ls = ls₀ at h
  induction h generalizing l with
  | nil => exact ⟨l, hls.symm⟩
  | var _ _ _ ih =>
    obtain ⟨-, rfl⟩ := List.cons.inj hls
    exact ih rfl
  | assign _ _ _ ih => exact ih hls
  | block _ _ _ ih => exact ih hls
  | expr _ _ ih => exact ih hls

end StmtsCode

/-! ## The walk over the nodes -/

namespace Lowering

variable {ctx : Context} {univ : Layer}

/-- **An expression that is lowered emits the code of the tree below it**, and changes nothing
else but the number of the next register. -/
theorem lowerExpr_translates {ls : List Layer} {level : Nat} {id : ExprId} {s s' : State}
    {v : Value} (hs : s.scopes.Shows ls univ) (h : lowerExpr ctx level id s = .ok v s') :
    ∃ t code r, ctx.nodes.unfoldExpr level id = some t ∧
      ExprCode univ ls s.registers.allocated t code r ∧ v = .reg ⟨r⟩ ∧
      s' = s.grow code (r + 1) := by
  induction level generalizing id s s' v with
  | zero => exact absurd h (by simp [lowerExpr, throw_apply])
  | succ level ih =>
    cases lowerExpr_succ.mp h with
    | ident node bound =>
      obtain ⟨symbol, hn, rfl, rfl⟩ := (resolveSlot_eq_ok hs).mp bound
      exact ⟨_, _, _, NodeStore.unfoldExpr_succ.mpr (.ident node), .ident hn, rfl, rfl⟩
    | int node fits =>
      exact ⟨_, _, _, NodeStore.unfoldExpr_succ.mpr (.int node), .int fits, rfl, rfl⟩
    | binary node arithmetic first second =>
      obtain ⟨tl, cl, a, htl, hcl, rfl, rfl⟩ := ih hs first
      have hs₁ : (s.grow cl (a + 1)).scopes.Shows ls univ := hs
      obtain ⟨tr, cr, b, htr, hcr, rfl, rfl⟩ := ih hs₁ second
      exact ⟨_, _, _, NodeStore.unfoldExpr_succ.mpr (.binary node htl htr),
        .binary arithmetic hcl hcr, rfl, by simp⟩
    | neg node operand =>
      obtain ⟨t, c, a, ht, hc, rfl, rfl⟩ := ih hs operand
      exact ⟨_, _, _, NodeStore.unfoldExpr_succ.mpr (.unary node ht), .neg hc, rfl, by simp⟩
    | pos node operand =>
      obtain ⟨t, c, a, ht, hc, rfl, rfl⟩ := ih hs operand
      exact ⟨_, _, _, NodeStore.unfoldExpr_succ.mpr (.unary node ht), .pos hc, rfl, rfl⟩
    | paren node inner =>
      obtain ⟨t, c, a, ht, hc, rfl, rfl⟩ := ih hs inner
      exact ⟨_, _, _, NodeStore.unfoldExpr_succ.mpr (.paren node ht), .paren hc, rfl, rfl⟩
    | call node listed known builtin argument =>
      rw [hs.lookupUniverse] at known
      obtain ⟨t, c, a, ht, hc, rfl, rfl⟩ := ih hs argument
      exact ⟨_, _, _, NodeStore.unfoldExpr_succ.mpr (.call node listed (.cons ht .nil)),
        .call known hc, rfl, by simp⟩

/-- From state `s` the statements `ts` lead to state `s'`: their code was appended, and the open
scopes show the variables that are bound behind them. -/
def Translates (ctx : Context) (univ : Layer) (ls : List Layer) (s : State) (ts : List StmtTree)
    (s' : State) : Prop :=
  ∃ code ls', StmtsCode ctx.mangling ctx.names univ ls s.registers.allocated ts code ls'
      s'.registers.allocated ∧
    s'.scopes.Shows ls' univ ∧ s'.listing = s.listing.append code

/-- The initial value of a variable. -/
def Context.lowerInit (ctx : Context) : Option ExprId → LowerM Value
  | some init => ctx.lowerExpr init
  | none => pure .zero

/-- Give a variable its slot, and the slot its initial value. -/
def Context.declareVar (ctx : Context) (id : StmtId) (n : Name) (span : Span) (value : Value) :
    LowerM Unit := do
  let text ← orFault (ctx.names.lookup n)
  report (.variableDeclared (ctx.mangling.localSlot text span.start))
  bindSymbol ⟨n, ctx.mangling.localSlot text span.start, .declared id⟩
  emit (.alloca (ctx.mangling.localSlot text span.start))
  emit (.store value (ctx.mangling.localSlot text span.start))

theorem lowerVar_eq (ctx : Context) (id : StmtId) (n : Name) (init : Option ExprId) (span : Span) :
    ctx.lowerVar id n init span = ctx.lowerInit init >>= ctx.declareVar id n span := by
  cases init <;> rfl

theorem lowerInit_translates {ls : List Layer} {init : Option ExprId} {s s' : State} {v : Value}
    (hs : s.scopes.Shows ls univ) (h : ctx.lowerInit init s = .ok v s') :
    ∃ init' code k, init.mapM ctx.nodes.exprTree = some init' ∧
      InitCode univ ls s.registers.allocated init' code v k ∧ s' = s.grow code k := by
  cases init with
  | none =>
    obtain ⟨rfl, rfl⟩ := pure_eq_ok.mp h
    exact ⟨none, [], _, rfl, .zero, by simp [State.grow]⟩
  | some e =>
    obtain ⟨t, code, r, ht, hcode, rfl, rfl⟩ := lowerExpr_translates hs h
    exact ⟨some t, code, _, by simp [NodeStore.exprTree, ht], .expr hcode, rfl⟩

/-- A declaration binds its slot in the innermost scope. -/
theorem declareVar_eq_ok {id : StmtId} {n : Name} {span : Span} {v : Value} {s s' : State} :
    ctx.declareVar id n span v s = .ok () s' ↔
      ∃ text, ctx.names.text? n = some text ∧
        s' = { s.grow [.alloca (ctx.mangling.localSlot text span.start),
              .store v (ctx.mangling.localSlot text span.start)] s.registers.allocated with
            scopes := (s.scopes.insert
              ⟨n, ctx.mangling.localSlot text span.start, .declared id⟩).2
            events := s.events.push
              (.variableDeclared (ctx.mangling.localSlot text span.start)) } := by
  unfold Context.declareVar
  rw [bind_eq_ok]
  constructor
  · rintro ⟨text, s₁, hread, h⟩
    obtain ⟨htext, rfl⟩ := orFault_eq_ok.mp hread
    obtain ⟨_, s₁, hreport, h⟩ := bind_eq_ok.mp h
    cases hreport
    obtain ⟨_, s₁, hbind, h⟩ := bind_eq_ok.mp h
    cases hbind
    obtain ⟨_, s₁, halloca, hstore⟩ := bind_eq_ok.mp h
    rw [emit_eq] at halloca
    cases halloca
    rw [emit_eq] at hstore
    cases hstore
    exact ⟨text, InternTable.lookup_eq_ok_iff.mp htext,
      by simp [State.grow, Listing.append_append]⟩
  · rintro ⟨text, htext, rfl⟩
    refine ⟨text, s, orFault_eq_ok.mpr ⟨InternTable.lookup_eq_ok_iff.mpr htext, rfl⟩, ?_⟩
    refine bind_eq_ok.mpr ⟨_, _, rfl, bind_eq_ok.mpr ⟨_, _, rfl, bind_eq_ok.mpr ⟨_, _,
      emit_eq _ _, ?_⟩⟩⟩
    rw [emit_eq]
    simp [State.grow, Listing.append_append]

theorem lowerVar_translates {l : Layer} {ls : List Layer} {id : StmtId} {n : Name}
    {init : Option ExprId} {span : Span} {s s' : State} (hs : s.scopes.Shows (l :: ls) univ)
    (h : ctx.lowerVar id n init span s = .ok () s') :
    ∃ init', init.mapM ctx.nodes.exprTree = some init' ∧
      Translates ctx univ (l :: ls) s [.var ⟨id, span⟩ n init'] s' := by
  rw [lowerVar_eq] at h
  obtain ⟨v, s₁, hinit, h⟩ := bind_eq_ok.mp h
  obtain ⟨init', code, k, hinit', hcode, rfl⟩ := lowerInit_translates hs hinit
  obtain ⟨text, htext, rfl⟩ := declareVar_eq_ok.mp h
  refine ⟨init', hinit', _, _, .var hcode htext .nil, ?_, ?_⟩
  · exact hs.insert (by simp [Symbol.isBuiltin])
  · simp [State.grow, Listing.append_append]

/-- One statement after the other, given what each of them does. -/
theorem forM_translates {level : Nat}
    (step : ∀ {l : Layer} {ls : List Layer} {id : StmtId} {s s' : State},
      s.scopes.Shows (l :: ls) univ → lowerStmt ctx level id s = .ok () s' →
      ∃ t, ctx.nodes.unfoldStmt level id = some t ∧ Translates ctx univ (l :: ls) s [t] s')
    {l : Layer} {ls : List Layer} {ids : List StmtId} {s s' : State}
    (hs : s.scopes.Shows (l :: ls) univ) (h : ids.forM (lowerStmt ctx level) s = .ok () s') :
    ∃ ts, ids.mapM (ctx.nodes.unfoldStmt level) = some ts ∧
      Translates ctx univ (l :: ls) s ts s' := by
  induction ids generalizing l s with
  | nil =>
    obtain ⟨-, rfl⟩ := pure_eq_ok.mp h
    exact ⟨[], rfl, [], _, .nil, hs, by simp⟩
  | cons id ids ih =>
    obtain ⟨_, s₁, hid, hids⟩ := bind_eq_ok.mp h
    obtain ⟨t, ht, code, ls₁, hcode, hs₁, hlisting⟩ := step hs hid
    obtain ⟨l', rfl⟩ := hcode.outer_eq
    obtain ⟨ts, hts, code', ls₂, hcode', hs₂, hlisting'⟩ := ih hs₁ hids
    refine ⟨t :: ts, by simp [ht, hts], code ++ code', ls₂, hcode.append hcode', hs₂, ?_⟩
    rw [hlisting', hlisting, Listing.append_append]

/-- **Statements that are lowered emit the code of the trees below them.** -/
theorem lowerStmt_translates {l : Layer} {ls : List Layer} {level : Nat} {id : StmtId}
    {s s' : State} (hs : s.scopes.Shows (l :: ls) univ)
    (h : lowerStmt ctx level id s = .ok () s') :
    ∃ t, ctx.nodes.unfoldStmt level id = some t ∧ Translates ctx univ (l :: ls) s [t] s' := by
  induction level generalizing l ls id s s' with
  | zero => exact absurd h (by simp [lowerStmt, throw_apply])
  | succ level ih =>
    rw [lowerStmt] at h
    obtain ⟨⟨kind, span⟩, s₁, hread, h⟩ := bind_eq_ok.mp h
    obtain ⟨node, rfl⟩ := orFault_eq_ok.mp hread
    cases kind with
    | var n init =>
      obtain ⟨init', hinit, hvar⟩ := lowerVar_translates hs h
      exact ⟨_, NodeStore.unfoldStmt_succ.mpr (.var node hinit), hvar⟩
    | assign n value =>
      obtain ⟨slot, s₁, hslot, h⟩ := bind_eq_ok.mp h
      obtain ⟨symbol, hn, rfl, rfl⟩ := (resolveSlot_eq_ok hs).mp hslot
      obtain ⟨v, s₁, hvalue, h⟩ := bind_eq_ok.mp h
      obtain ⟨t, code, r, ht, hcode, rfl, rfl⟩ := lowerExpr_translates hs hvalue
      rw [emit_eq] at h
      cases h
      refine ⟨_, NodeStore.unfoldStmt_succ.mpr (.assign node ht), _, _, .assign hn hcode .nil, hs,
        ?_⟩
      simp [State.grow, Listing.append_append]
    | block body =>
      obtain ⟨s₁, c, hbody, hleave, rfl⟩ := inScope_eq_ok.mp h
      obtain ⟨ids, s₂, hlist, hbody⟩ := bind_eq_ok.mp hbody
      obtain ⟨hids, rfl⟩ := orFault_eq_ok.mp hlist
      obtain ⟨ts, hts, code, ls₁, hcode, hs₁, hlisting⟩ := forM_translates ih hs.enter hbody
      -- the body has bound names in its own layer only, and that one is closed
      obtain ⟨l', rfl⟩ := hcode.outer_eq
      obtain ⟨c', hleave', hc'⟩ := hs₁.leave
      rw [hleave] at hleave'
      cases hleave'
      refine ⟨_, NodeStore.unfoldStmt_succ.mpr (.block node hids (mapM_eq_some_iff.mp hts)), _, _,
        .block hcode .nil, hc', ?_⟩
      simpa using hlisting
    | expr value =>
      obtain ⟨v, s₁, hvalue, h⟩ := bind_eq_ok.mp h
      obtain ⟨t, code, r, ht, hcode, rfl, rfl⟩ := lowerExpr_translates hs hvalue
      obtain ⟨-, rfl⟩ := pure_eq_ok.mp h
      refine ⟨_, NodeStore.unfoldStmt_succ.mpr (.expr node ht), _, _, .expr hcode .nil, hs, ?_⟩
      simp [State.grow]
    | error => exact absurd h rejectStmt_ne_ok

end Lowering

end RegisterCode
