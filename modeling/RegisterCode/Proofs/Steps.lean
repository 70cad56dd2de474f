import RegisterCode.Lowering.Body
import RegisterCode.Proofs.Layers

/-!
# What the steps of a compilation do

Every step of a compilation is a function from states to results. For each of the elementary steps
this module says when it succeeds and what state it leaves; the walk over the nodes is then taken
apart with `bind_eq_ok` and never unfolded further.

`State.grow` is the only way in which an expression changes the state: code is appended and
registers are handed out.

Results: what it takes to lower an expression, by the expressions directly below it
(`lowerExpr_succ`).
-/

namespace RegisterCode

namespace Listing

/-- Append instructions. -/
def append (l : Listing) (code : List Instr) : Listing :=
  ⟨l.passages ++ (code.map Passage.instr).toArray⟩

@[simp]
theorem append_nil (l : Listing) : l.append [] = l := by
  simp [append]

theorem append_append (l : Listing) (c c' : List Instr) :
    (l.append c).append c' = l.append (c ++ c') := by
  simp [append]

theorem instr_eq_append (l : Listing) (i : Instr) : l.instr i = l.append [i] := by
  simp [append, instr]

@[simp]
theorem instrs_append (l : Listing) (code : List Instr) :
    (l.append code).instrs = l.instrs ++ code := by
  unfold instrs append
  rw [Array.toList_append, List.filterMap_append, List.filterMap_map]
  exact congrArg _ List.filterMap_some

end Listing

namespace Lowering

variable {α β : Type} {s s' : State}

namespace State

/-- The state after `code` was emitted and the registers below `k` were handed out. -/
def grow (s : State) (code : List Instr) (k : Nat) : State :=
  { s with registers := ⟨k⟩, listing := s.listing.append code }

@[simp]
theorem grow_scopes (s : State) (code : List Instr) (k : Nat) : (s.grow code k).scopes = s.scopes :=
  rfl

@[simp]
theorem grow_allocated (s : State) (code : List Instr) (k : Nat) :
    (s.grow code k).registers.allocated = k := rfl

@[simp]
theorem grow_grow (s : State) (c c' : List Instr) (k k' : Nat) :
    (s.grow c k).grow c' k' = s.grow (c ++ c') k' := by
  simp [grow, Listing.append_append]

end State

/-! ## Sequencing -/

theorem bind_eq_ok {x : LowerM α} {f : α → LowerM β} {b : β} :
    (x >>= f) s = .ok b s' ↔ ∃ a s₁, x s = .ok a s₁ ∧ f a s₁ = .ok b s' := by
  change EStateM.bind x f s = _ ↔ _
  unfold EStateM.bind
  cases x s with
  | ok a s₁ =>
    constructor
    · exact fun h => ⟨a, s₁, rfl, h⟩
    · rintro ⟨a', s', h, h'⟩
      cases h
      exact h'
  | error e s₁ => simp

theorem bind_of_ok {x : LowerM α} {a : α} (h : x s = .ok a s') (f : α → LowerM β) :
    (x >>= f) s = f a s' := by
  change EStateM.bind x f s = _
  unfold EStateM.bind
  rw [h]

theorem bind_of_error {x : LowerM α} {e : Failure} (h : x s = .error e s') (f : α → LowerM β) :
    (x >>= f) s = .error e s' := by
  change EStateM.bind x f s = _
  unfold EStateM.bind
  rw [h]

theorem pure_eq_ok {a b : α} : (pure a : LowerM α) s = .ok b s' ↔ a = b ∧ s = s' := by
  change EStateM.pure a s = _ ↔ _
  simp [EStateM.pure]

theorem throw_apply (e : Failure) (s : State) : (throw e : LowerM α) s = .error e s := rfl

theorem orFault_eq_ok {x : Except Fault α} {a : α} :
    orFault x s = .ok a s' ↔ x = .ok a ∧ s = s' := by
  cases x with
  | ok b => simp [orFault, pure_eq_ok]
  | error f => simp [orFault, throw_apply]

/-- What is read is handed on. -/
theorem orFault_bind {x : Except Fault α} {a : α} (h : x = .ok a) (f : α → LowerM β) :
    (orFault x >>= f) s = f a s :=
  bind_of_ok (orFault_eq_ok.mpr ⟨h, rfl⟩) f

theorem reject_ne_ok {r : Rejection} {a : α} : reject r s ≠ .ok a s' := by
  simp [reject, throw_apply]

theorem rejectExpr_ne_ok {ctx : Context} {id : ExprId} {construct : String} {a : α} :
    ctx.rejectExpr id construct s ≠ .ok a s' := by
  intro h
  obtain ⟨e, s₁, -, h⟩ := bind_eq_ok.mp h
  obtain ⟨text, s₂, -, h⟩ := bind_eq_ok.mp h
  exact reject_ne_ok h

theorem rejectStmt_ne_ok {ctx : Context} {id : StmtId} {construct : String} {a : α} :
    ctx.rejectStmt id construct s ≠ .ok a s' := by
  intro h
  obtain ⟨e, s₁, -, h⟩ := bind_eq_ok.mp h
  obtain ⟨text, s₂, -, h⟩ := bind_eq_ok.mp h
  exact reject_ne_ok h

/-! ## Emitting -/

theorem emit_eq (i : Instr) (s : State) :
    emit i s = .ok () (s.grow [i] s.registers.allocated) := by
  have hrun : emit i s = .ok () { s with listing := s.listing.instr i } := rfl
  rw [hrun, Listing.instr_eq_append]
  rfl

theorem freshRegister_eq (s : State) :
    freshRegister s = .ok ⟨s.registers.allocated⟩ (s.grow [] (s.registers.allocated + 1)) := by
  have hrun : freshRegister s = .ok ⟨s.registers.allocated⟩
      { s with registers := ⟨s.registers.allocated + 1⟩ } := rfl
  simp [hrun, State.grow]

/-- An instruction that fills a fresh register. -/
theorem emitInto_eq (i : Register → Instr) (s : State) :
    (do
      let target ← freshRegister
      emit (i target)
      return .reg target : LowerM Value) s = .ok (.reg ⟨s.registers.allocated⟩)
        (s.grow [i ⟨s.registers.allocated⟩] (s.registers.allocated + 1)) := by
  refine bind_eq_ok.mpr ⟨_, _, freshRegister_eq s, bind_eq_ok.mpr ⟨_, _, emit_eq _ _, ?_⟩⟩
  rw [pure_eq_ok]
  simp

theorem emitBinary_eq (op : Opcode) (left right : Value) (s : State) :
    emitBinary op left right s = .ok (.reg ⟨s.registers.allocated⟩)
      (s.grow [.binary ⟨s.registers.allocated⟩ op left right] (s.registers.allocated + 1)) :=
  emitInto_eq (.binary · op left right) s

/-! ## Scopes -/

/-- A variable has a slot iff some layer of variables binds its name. -/
theorem resolveSlot_eq_ok {ctx : Context} {ls : List Layer} {univ : Layer} {n : Name} {span : Span}
    {slot : Label} (h : s.scopes.Shows ls univ) :
    ctx.resolveSlot n span s = .ok slot s' ↔
      ∃ symbol, Layer.find ls n = some symbol ∧ symbol.label = slot ∧ s = s' := by
  unfold Context.resolveSlot
  rw [bind_eq_ok]
  constructor
  · rintro ⟨s₁, s₂, hget, hrun⟩
    cases hget
    obtain ⟨symbol?, s₃, hres, hrun⟩ := bind_eq_ok.mp hrun
    rw [orFault_eq_ok, h.resolve] at hres
    obtain ⟨hres, rfl⟩ := hres
    obtain rfl := Except.ok.inj hres
    cases hf : Layer.find ls n with
    | some symbol =>
      obtain ⟨l, hl, hn⟩ := Layer.mem_of_find hf
      simp only [hf, Option.some_or, h.vars l hl n symbol hn, Bool.false_eq_true, if_false,
        pure_eq_ok] at hrun
      exact ⟨symbol, rfl, hrun⟩
    | none =>
      rw [hf, Option.none_or] at hrun
      cases hu : univ n with
      | none =>
        rw [hu] at hrun
        obtain ⟨text, s₄, -, hrun⟩ := bind_eq_ok.mp hrun
        exact absurd hrun reject_ne_ok
      | some symbol =>
        simp only [hu, h.funs n symbol hu, if_true] at hrun
        obtain ⟨text, s₄, -, hrun⟩ := bind_eq_ok.mp hrun
        exact absurd hrun reject_ne_ok
  · rintro ⟨symbol, hf, rfl, rfl⟩
    obtain ⟨l, hl, hn⟩ := Layer.mem_of_find hf
    refine ⟨s, s, rfl, bind_eq_ok.mpr ⟨some symbol, s, ?_, ?_⟩⟩
    · rw [orFault_eq_ok, h.resolve, hf, Option.some_or]
      exact ⟨rfl, rfl⟩
    · simp only [h.vars l hl n symbol hn, Bool.false_eq_true, if_false, pure_eq_ok, and_self]

/-- Closing the innermost scope keeps everything else. -/
theorem leaveScope_eq (s : State) :
    leaveScope s = match s.scopes.leave with
      | .ok _ c => .ok () { s with scopes := c }
      | .error f c => .error (.fault f) { s with scopes := c } := rfl

/-- The scope of a step is closed after it, whether it succeeds or fails. -/
theorem inScope_eq (step : LowerM Unit) (s : State) :
    inScope step s = match step { s with scopes := s.scopes.enter } with
      | .ok _ s₁ => leaveScope s₁
      | .error e s₁ => match leaveScope s₁ with
        | .ok _ s₂ => .error e s₂
        | .error e' s₂ => .error e' s₂ := by
  have henter : enterScope s = .ok () { s with scopes := s.scopes.enter } := rfl
  simp only [inScope, bind, EStateM.bind, henter, tryFinally, tryFinally', Functor.map,
    EStateM.map]
  cases step { s with scopes := s.scopes.enter } with
  | ok a s₁ =>
    simp only
    cases leaveScope s₁ <;> rfl
  | error e s₁ =>
    simp only
    cases leaveScope s₁ <;> rfl

/-- A step in a scope of its own succeeds iff the step does and the scope can be closed. -/
theorem inScope_eq_ok {step : LowerM Unit} :
    inScope step s = .ok () s' ↔
      ∃ s₁ c, step { s with scopes := s.scopes.enter } = .ok () s₁ ∧ s₁.scopes.leave = .ok () c ∧
        { s₁ with scopes := c } = s' := by
  rw [inScope_eq]
  cases hstep : step { s with scopes := s.scopes.enter } with
  | ok a s₁ =>
    simp only [leaveScope_eq]
    cases hleave : s₁.scopes.leave with
    | ok _ c => simp [hleave]
    | error f c => simp [hleave]
  | error e s₁ =>
    simp only [leaveScope_eq]
    cases s₁.scopes.leave <;> simp

/-! ## Expressions -/

/-- One level of an expression that was lowered: what it took in state `s`, given what `below` says
about the expressions directly below it. -/
inductive LoweredLevel (ctx : Context) (below : ExprId → State → Value → State → Prop)
    (id : ExprId) (s : State) : Value → State → Prop where
  | ident {span : Span} {n : Name} {slot : Label} {s₁ : State}
      (node : ctx.nodes.expr id = .ok ⟨.ident n, span⟩)
      (bound : ctx.resolveSlot n span s = .ok slot s₁) :
      LoweredLevel ctx below id s (.reg ⟨s₁.registers.allocated⟩)
        (s₁.grow [.load ⟨s₁.registers.allocated⟩ slot] (s₁.registers.allocated + 1))
  | int {span : Span} {value : Int} {n : Int32}
      (node : ctx.nodes.expr id = .ok ⟨.int value, span⟩) (fits : literal? value = some n) :
      LoweredLevel ctx below id s (.reg ⟨s.registers.allocated⟩)
        (s.grow [.binary ⟨s.registers.allocated⟩ .add .zero (.imm n)] (s.registers.allocated + 1))
  | binary {span : Span} {op : BinaryOp} {opcode : Opcode} {left right : ExprId} {l r : Value}
      {s₁ s₂ : State} (node : ctx.nodes.expr id = .ok ⟨.binary op left right, span⟩)
      (arithmetic : op.opcode? = some opcode) (first : below left s l s₁)
      (second : below right s₁ r s₂) :
      LoweredLevel ctx below id s (.reg ⟨s₂.registers.allocated⟩)
        (s₂.grow [.binary ⟨s₂.registers.allocated⟩ opcode l r] (s₂.registers.allocated + 1))
  | neg {span : Span} {operand : ExprId} {v : Value} {s₁ : State}
      (node : ctx.nodes.expr id = .ok ⟨.unary .neg operand, span⟩)
      (operand : below operand s v s₁) :
      LoweredLevel ctx below id s (.reg ⟨s₁.registers.allocated⟩)
        (s₁.grow [.binary ⟨s₁.registers.allocated⟩ .sub .zero v] (s₁.registers.allocated + 1))
  | pos {span : Span} {operand : ExprId} {v : Value} {s₁ : State}
      (node : ctx.nodes.expr id = .ok ⟨.unary .pos operand, span⟩)
      (operand : below operand s v s₁) :
      LoweredLevel ctx below id s v s₁
  | paren {span : Span} {inner : ExprId} {v : Value} {s₁ : State}
      (node : ctx.nodes.expr id = .ok ⟨.paren inner, span⟩) (inner : below inner s v s₁) :
      LoweredLevel ctx below id s v s₁
  | call {span : Span} {f : Name} {args : Slice ExprId} {arg : ExprId} {symbol : Symbol} {v : Value}
      {s₁ : State} (node : ctx.nodes.expr id = .ok ⟨.call f args, span⟩)
      (listed : ctx.nodes.exprList args = .ok [arg])
      (known : s.scopes.lookupUniverse f = some symbol) (builtin : symbol.isBuiltin = true)
      (argument : below arg s v s₁) :
      LoweredLevel ctx below id s (.reg ⟨s₁.registers.allocated⟩)
        (s₁.grow [.call ⟨s₁.registers.allocated⟩ symbol.label v] (s₁.registers.allocated + 1))

theorem LoweredLevel.imp {ctx : Context} {below below' : ExprId → State → Value → State → Prop}
    {id : ExprId} {v : Value} (h : LoweredLevel ctx below id s v s')
    (himp : ∀ id s v s', below id s v s' → below' id s v s') :
    LoweredLevel ctx below' id s v s' := by
  cases h with
  | ident node bound => exact .ident node bound
  | int node fits => exact .int node fits
  | binary node arithmetic first second =>
    exact .binary node arithmetic (himp _ _ _ _ first) (himp _ _ _ _ second)
  | neg node operand => exact .neg node (himp _ _ _ _ operand)
  | pos node operand => exact .pos node (himp _ _ _ _ operand)
  | paren node inner => exact .paren node (himp _ _ _ _ inner)
  | call node listed known builtin argument =>
    exact .call node listed known builtin (himp _ _ _ _ argument)

/-- **What it takes to lower an expression**, by the expressions directly below it. -/
theorem lowerExpr_succ {ctx : Context} {level : Nat} {id : ExprId} {v : Value} :
    lowerExpr ctx (level + 1) id s = .ok v s' ↔
      LoweredLevel ctx (fun id s v s' => lowerExpr ctx level id s = .ok v s') id s v s' := by
  constructor
  · intro h
    rw [lowerExpr] at h
    obtain ⟨⟨kind, span⟩, s₁, hread, h⟩ := bind_eq_ok.mp h
    obtain ⟨node, rfl⟩ := orFault_eq_ok.mp hread
    cases kind with
    | ident n =>
      obtain ⟨slot, s₁, hslot, h⟩ := bind_eq_ok.mp h
      rw [emitInto_eq (.load · slot)] at h
      cases h
      exact .ident node hslot
    | int value =>
      dsimp only at h
      cases hn : literal? value with
      | none =>
        rw [hn] at h
        exact absurd h rejectExpr_ne_ok
      | some n =>
        simp only [hn, emitBinary_eq] at h
        cases h
        exact .int node hn
    | binary op left right =>
      dsimp only at h
      cases hop : op.opcode? with
      | none =>
        rw [hop] at h
        exact absurd h rejectExpr_ne_ok
      | some opcode =>
        rw [hop] at h
        obtain ⟨l, s₁, hl, h⟩ := bind_eq_ok.mp h
        obtain ⟨r, s₂, hr, h⟩ := bind_eq_ok.mp h
        rw [emitBinary_eq] at h
        cases h
        exact .binary node hop hl hr
    | unary op operand =>
      cases op with
      | neg =>
        obtain ⟨x, s₁, hx, h⟩ := bind_eq_ok.mp h
        rw [emitBinary_eq] at h
        cases h
        exact .neg node hx
      | pos => exact .pos node h
      | not => exact absurd h rejectExpr_ne_ok
    | paren inner => exact .paren node h
    | call f args =>
      obtain ⟨ids, s₁, hlist, h⟩ := bind_eq_ok.mp h
      obtain ⟨hargs, rfl⟩ := orFault_eq_ok.mp hlist
      rcases ids with _ | ⟨arg, _ | ⟨arg', rest⟩⟩
      · exact absurd h rejectExpr_ne_ok
      · obtain ⟨s₁, s₂, hget, h⟩ := bind_eq_ok.mp h
        cases hget
        cases hf : s.scopes.lookupUniverse f with
        | none =>
          rw [hf] at h
          exact absurd h rejectExpr_ne_ok
        | some symbol =>
          cases hb : symbol.isBuiltin with
          | false =>
            simp only [hf, hb, Bool.false_eq_true, if_false] at h
            exact absurd h rejectExpr_ne_ok
          | true =>
            simp only [hf, hb, if_true] at h
            obtain ⟨x, s₁, hx, h⟩ := bind_eq_ok.mp h
            rw [emitInto_eq (.call · symbol.label x)] at h
            cases h
            exact .call node hargs hf hb hx
      · exact absurd h rejectExpr_ne_ok
    | error => exact absurd h rejectExpr_ne_ok
  · intro h
    rw [lowerExpr]
    cases h with
    | ident node bound =>
      rw [orFault_bind node]
      dsimp only
      rw [bind_of_ok bound]
      exact emitInto_eq (.load · _) _
    | int node fits =>
      rw [orFault_bind node]
      simp only [fits]
      exact emitBinary_eq ..
    | binary node arithmetic first second =>
      rw [orFault_bind node]
      simp only [arithmetic]
      rw [bind_of_ok first, bind_of_ok second]
      exact emitBinary_eq ..
    | neg node operand =>
      rw [orFault_bind node]
      dsimp only
      rw [bind_of_ok operand]
      exact emitBinary_eq ..
    | pos node operand =>
      rw [orFault_bind node]
      exact operand
    | paren node inner =>
      rw [orFault_bind node]
      exact inner
    | call node listed known builtin argument =>
      rw [orFault_bind node]
      dsimp only
      rw [orFault_bind listed]
      have hget : (get : LowerM State) s = .ok s s := rfl
      dsimp only
      rw [bind_of_ok hget]
      simp only [known, builtin, if_true]
      rw [bind_of_ok argument]
      exact emitInto_eq (.call · _ _) _

/-- With more levels the result is the same. -/
theorem lowerExpr_mono {ctx : Context} {level level' : Nat} {id : ExprId} {v : Value}
    (h : lowerExpr ctx level id s = .ok v s') (hle : level ≤ level') :
    lowerExpr ctx level' id s = .ok v s' := by
  induction level generalizing level' id s s' v with
  | zero => exact absurd h (by simp [lowerExpr, throw_apply])
  | succ level ih =>
    cases level' with
    | zero => exact absurd hle (Nat.not_succ_le_zero level)
    | succ level' =>
      refine lowerExpr_succ.mpr ((lowerExpr_succ.mp h).imp fun _ _ _ _ hbelow => ?_)
      exact ih hbelow (Nat.le_of_succ_le_succ hle)

end Lowering

end RegisterCode
