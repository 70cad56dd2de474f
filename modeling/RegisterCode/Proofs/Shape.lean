import RegisterCode.Proofs.Registers
import RegisterCode.Proofs.Watching

/-!
# The shape of an expression's code

Whatever the scopes are, an expression that is lowered appends instructions each of which fills one
register, and the registers are the next ones in order: one for every visit of a node that computes
something. The last of them holds the value. This is true in states that no compilation reaches, and
it is what lets the code of a larger expression be put together from the code of its parts: the
instructions of the left operand, those of the right operand behind them, and one more.

Results:
* `lowerExpr_fills`: what one expression appends.
* `expression_shape`: all of it together, and how the code of an operator is made.
-/

namespace RegisterCode

theorem Listing.append_inj {l : Listing} {code code' : List Instr}
    (h : l.append code = l.append code') : code = code' := by
  have hpassages := congrArg (fun l => l.passages.toList) h
  simp only [append, Array.toList_append, List.append_cancel_left_eq] at hpassages
  exact List.map_injective_iff.mpr (fun _ _ heq => Passage.instr.inj heq) hpassages

namespace Lowering

variable {ctx : Context} {s s₁ s' : State} {n n' : Nat} {code code' : List Instr} {v v' : Value}

/-- From `s` to `s'` the instructions `code` were appended; they fill the next `n` registers in
order, one each, and `v` is the last of these. -/
structure Fills (s : State) (n : Nat) (code : List Instr) (v : Value) (s' : State) : Prop where
  grown : s' = s.grow code (s.registers.allocated + n)
  targets : code.map Instr.target? = (registersFrom s.registers.allocated n).map some
  result : ∃ m, n = m + 1 ∧ v = .reg ⟨s.registers.allocated + m⟩

namespace Fills

/-- A single instruction. -/
theorem single {i : Instr} (ht : i.target? = some ⟨s.registers.allocated⟩) :
    Fills s 1 [i] (.reg ⟨s.registers.allocated⟩) (s.grow [i] (s.registers.allocated + 1)) :=
  ⟨rfl, by simp [ht, registersFrom], 0, rfl, rfl⟩

/-- One piece of code behind the other. -/
theorem trans (h : Fills s n code v s₁) (h' : Fills s₁ n' code' v' s') :
    Fills s (n + n') (code ++ code') v' s' := by
  obtain ⟨rfl, htargets, -⟩ := h
  obtain ⟨rfl, htargets', m, rfl, rfl⟩ := h'
  rw [State.grow_allocated] at htargets'
  refine ⟨?_, ?_, n + m, rfl, ?_⟩
  · rw [State.grow_grow, State.grow_allocated, Nat.add_assoc]
  · rw [List.map_append, htargets, htargets', ← List.map_append, registersFrom_append]
  · rw [State.grow_allocated, Nat.add_assoc]

/-- One more instruction. -/
theorem compute (h : Fills s n code v s₁) {i : Instr}
    (ht : i.target? = some ⟨s₁.registers.allocated⟩) :
    Fills s (n + 1) (code ++ [i]) (.reg ⟨s₁.registers.allocated⟩)
      (s₁.grow [i] (s₁.registers.allocated + 1)) :=
  h.trans (single ht)

/-- Every instruction fills a register. -/
theorem exists_target (h : Fills s n code v s') {i : Instr} (hi : i ∈ code) :
    ∃ r, i.target? = some r := by
  have hmem : i.target? ∈ (registersFrom s.registers.allocated n).map some :=
    h.targets ▸ List.mem_map_of_mem hi
  obtain ⟨r, -, hr⟩ := List.mem_map.mp hmem
  exact ⟨r, hr.symm⟩

/-- The last instruction fills the register with the value. -/
theorem exists_last (h : Fills s n code v s') :
    ∃ last, code.getLast? = some last ∧
      last.target? = some ⟨s.registers.allocated + n - 1⟩ ∧
      v = .reg ⟨s.registers.allocated + n - 1⟩ := by
  obtain ⟨-, htargets, m, rfl, rfl⟩ := h
  have hlast : (code.getLast?).map Instr.target? = some (some ⟨s.registers.allocated + m⟩) := by
    rw [← List.getLast?_map, htargets, ← registersFrom_append, List.map_append]
    simp [registersFrom]
  obtain ⟨last, hcode, htarget⟩ := Option.map_eq_some_iff.mp hlast
  exact ⟨last, hcode, htarget, rfl⟩

end Fills

/-- **An expression that is lowered fills one register a visit**, in order, and its value is in the
last of them. -/
theorem lowerExpr_fills {level : Nat} {id : ExprId} (h : lowerExpr ctx level id s = .ok v s') :
    ∃ t code, ctx.nodes.unfoldExpr level id = some t ∧ Fills s t.visits code v s' := by
  induction level generalizing id s s' v with
  | zero => exact absurd h (by simp [lowerExpr, throw_apply])
  | succ level ih =>
    cases lowerExpr_succ.mp h with
    | @ident span n slot s₁ node bound =>
      have hsame := (reads_resolveSlot n span : Reads (ctx.resolveSlot n span)) s
      rw [bound] at hsame
      obtain rfl : s₁ = s := hsame
      exact ⟨_, _, NodeStore.unfoldExpr_succ.mpr (.ident node), .single rfl⟩
    | int node fits => exact ⟨_, _, NodeStore.unfoldExpr_succ.mpr (.int node), .single rfl⟩
    | binary node arithmetic first second =>
      obtain ⟨l, cl, hl, hfirst⟩ := ih first
      obtain ⟨r, cr, hr, hsecond⟩ := ih second
      exact ⟨_, _, NodeStore.unfoldExpr_succ.mpr (.binary node hl hr),
        (hfirst.trans hsecond).compute rfl⟩
    | neg node operand =>
      obtain ⟨x, c, hx, hoperand⟩ := ih operand
      exact ⟨_, _, NodeStore.unfoldExpr_succ.mpr (.unary node hx), hoperand.compute rfl⟩
    | pos node operand =>
      obtain ⟨x, c, hx, hoperand⟩ := ih operand
      exact ⟨_, _, NodeStore.unfoldExpr_succ.mpr (.unary node hx), hoperand⟩
    | paren node inner =>
      obtain ⟨x, c, hx, hinner⟩ := ih inner
      exact ⟨_, _, NodeStore.unfoldExpr_succ.mpr (.paren node hx), hinner⟩
    | call node listed known builtin argument =>
      obtain ⟨x, c, hx, hargument⟩ := ih argument
      exact ⟨_, _, NodeStore.unfoldExpr_succ.mpr (.call node listed (.cons hx .nil)),
        hargument.compute rfl⟩

/-- The code of an operator: that of the left operand, that of the right operand in the state left
by it, and one instruction. -/
theorem lowerExpr_binary {id left right : ExprId} {op : BinaryOp} {span : Span}
    (h : ctx.lowerExpr id s = .ok v s')
    (node : ctx.nodes.expr id = .ok ⟨.binary op left right, span⟩) :
    ∃ opcode a b s₁ s₂, op.opcode? = some opcode ∧ ctx.lowerExpr left s = .ok a s₁ ∧
      ctx.lowerExpr right s₁ = .ok b s₂ ∧
      s' = s₂.grow [.binary ⟨s₂.registers.allocated⟩ opcode a b] (s₂.registers.allocated + 1) := by
  cases lowerExpr_succ.mp h with
  | @binary _ _ opcode _ _ a b s₁ s₂ node' arithmetic first second =>
    cases node.symm.trans node'
    exact ⟨opcode, a, b, s₁, s₂, arithmetic, lowerExpr_mono first (Nat.le_succ _),
      lowerExpr_mono second (Nat.le_succ _), rfl⟩
  | ident node' | int node' | neg node' | pos node' | paren node' | call node' =>
    cases node.symm.trans node'

/-- **The shape of an expression's code.** In any state, the instructions that an expression appends
fill the next registers in order, one each and one for every visit of a node that computes
something. Its value is in the last of them, which the last instruction fills. No slot is reserved
or written. The code of an operator is that of the left operand, then that of the right operand with
the registers behind, then one instruction that combines the two values. -/
theorem expression_shape (ctx : Context) {s s' : State} {id : ExprId} {v : Value}
    (h : ctx.lowerExpr id s = .ok v s') :
    ∃ t code, ctx.nodes.exprTree id = some t ∧ 1 ≤ t.visits ∧
      s' = s.grow code (s.registers.allocated + t.visits) ∧
      code.map Instr.target? = (registersFrom s.registers.allocated t.visits).map some ∧
      (∃ last, code.getLast? = some last ∧
        last.target? = some ⟨s.registers.allocated + t.visits - 1⟩ ∧
        v = .reg ⟨s.registers.allocated + t.visits - 1⟩) ∧
      (∀ i ∈ code, ∀ slot, i ≠ .alloca slot ∧ ∀ w, i ≠ .store w slot) ∧
      ∀ op left right span, ctx.nodes.expr id = .ok ⟨.binary op left right, span⟩ →
        ∃ opcode l r cl cr a b, op.opcode? = some opcode ∧
          ctx.nodes.exprTree left = some l ∧ ctx.nodes.exprTree right = some r ∧
          ctx.lowerExpr left s = .ok a (s.grow cl (s.registers.allocated + l.visits)) ∧
          ctx.lowerExpr right (s.grow cl (s.registers.allocated + l.visits)) =
            .ok b (s.grow (cl ++ cr) (s.registers.allocated + l.visits + r.visits)) ∧
          code = cl ++ cr ++
            [.binary ⟨s.registers.allocated + l.visits + r.visits⟩ opcode a b] := by
  obtain ⟨t, code, ht, hfills⟩ := lowerExpr_fills h
  refine ⟨t, code, ht, ?_, hfills.grown, hfills.targets, hfills.exists_last, ?_, ?_⟩
  · obtain ⟨m, hm, -⟩ := hfills.result
    omega
  · intro i hi slot
    obtain ⟨r, hr⟩ := hfills.exists_target hi
    refine ⟨?_, fun w => ?_⟩
    · rintro rfl
      exact Option.some_ne_none r hr.symm
    · rintro rfl
      exact Option.some_ne_none r hr.symm
  · intro op left right span node
    obtain ⟨opcode, a, b, s₁, s₂, hop, hleft, hright, hs'⟩ := lowerExpr_binary h node
    obtain ⟨l, cl, hl, hfirst⟩ := lowerExpr_fills hleft
    obtain ⟨r, cr, hr, hsecond⟩ := lowerExpr_fills hright
    obtain rfl := hfirst.grown
    have hs₂ := hsecond.grown
    rw [State.grow_grow, State.grow_allocated] at hs₂
    subst hs₂
    rw [State.grow_grow, State.grow_allocated, hfills.grown] at hs'
    exact ⟨opcode, l, r, cl, cr, a, b, hop, hl, hr, hleft, hright,
      Listing.append_inj (congrArg State.listing hs')⟩

end Lowering

namespace Counter

open Lowering

/-- The nodes and names of the small program. -/
def context : Context := ⟨program.nodes, names, ⟨"ugo"⟩⟩

/-- The variable of the package is bound, and five registers were handed out. -/
def midway : State where
  scopes := ((ScopeChain.ofUniverse []).enter.insert ⟨⟨2⟩, ⟨"@ugo_main_x"⟩, .global 0⟩).2
  registers := ⟨5⟩

/-- The product `7 * x` takes the registers 5, 6 and 7. -/
theorem expression_shape_product :
    ∃ s', context.lowerExpr ⟨8⟩ midway = .ok (.reg ⟨7⟩) s' ∧
      ∃ code, s' = midway.grow code 8 ∧
        code.map Instr.target? = [some ⟨5⟩, some ⟨6⟩, some ⟨7⟩] ∧
        ∃ cl cr a b, context.lowerExpr ⟨7⟩ midway = .ok a (midway.grow cl 6) ∧
          context.lowerExpr ⟨0⟩ (midway.grow cl 6) = .ok b (midway.grow (cl ++ cr) 7) ∧
          code = cl ++ cr ++ [.binary ⟨7⟩ .mul a b] := by
  obtain ⟨s', h⟩ : ∃ s', context.lowerExpr ⟨8⟩ midway = .ok (.reg ⟨7⟩) s' := ⟨_, rfl⟩
  obtain ⟨t, code, ht, -, hs', htargets, -, -, hbinary⟩ := expression_shape context h
  obtain ⟨opcode, l, r, cl, cr, a, b, hop, hl, hr, hleft, hright, hcode⟩ :=
    hbinary .mul ⟨7⟩ ⟨0⟩ ⟨64, 67⟩ rfl
  cases ht
  cases hl
  cases hr
  cases hop
  exact ⟨s', h, code, hs', htargets, cl, cr, a, b, hleft, hright, hcode⟩

end Counter

end RegisterCode
