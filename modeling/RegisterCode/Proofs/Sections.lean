import RegisterCode.Proofs.UnitCode

/-!
# Functions in a listing

The instructions of a listing are those of the functions, each between its `define` and its
`close`, behind the slots of the package. This module reads a listing that way: `sections` cuts it
into functions, and `Within` says which instructions of the open function stand before a point.
Of which instructions a body is made say `ExprInstr` and `StmtInstr`.

Results: the sections of a listing are the functions with a body, in order
(`FunctionsCode.sections_forall₂`); every instruction that does something is an instruction of one
body (`UnitCode.point`), so what holds within bodies holds in the listing.
-/

namespace RegisterCode

/-- Whether the instruction does something when its function is run. -/
def Instr.isStep : Instr → Bool
  | .alloca _ | .store .. | .load .. | .binary .. | .call .. => true
  | .global _ | .declare _ | .define _ | .ret | .close => false

/-! ## Points of code -/

/-- `P` holds at every point: of the instructions before it, the one at it and those behind. -/
def EveryPoint (P : List Instr → Instr → List Instr → Prop) (code : List Instr) : Prop :=
  ∀ pre i post, code = pre ++ i :: post → P pre i post

section Points

variable {P : List Instr → Instr → List Instr → Prop} {code code' : List Instr} {i : Instr}

theorem everyPoint_nil : EveryPoint P [] := by
  intro pre i post h
  exact absurd h (by simp)

theorem EveryPoint.append (h : EveryPoint (fun pre i post => P pre i (post ++ code')) code)
    (h' : EveryPoint (fun pre i post => P (code ++ pre) i post) code') :
    EveryPoint P (code ++ code') := by
  intro pre i post heq
  rcases List.append_eq_append_iff.mp heq with ⟨mid, rfl, hmid⟩ | ⟨mid, rfl, hmid⟩
  · exact h' mid i post hmid
  · cases mid with
    | nil =>
      have := h' [] i post (by simpa using hmid.symm)
      simpa using this
    | cons j mid =>
      obtain ⟨rfl, rfl⟩ := List.cons.inj hmid
      exact h pre i mid rfl

theorem EveryPoint.cons (h : P [] i code)
    (h' : EveryPoint (fun pre j post => P (i :: pre) j post) code) : EveryPoint P (i :: code) := by
  intro pre j post heq
  cases pre with
  | nil =>
    obtain ⟨rfl, rfl⟩ := List.cons.inj heq
    exact h
  | cons i' pre =>
    obtain ⟨rfl, rfl⟩ := List.cons.inj heq
    exact h' pre j post rfl

theorem EveryPoint.imp {Q : List Instr → Instr → List Instr → Prop} (h : EveryPoint P code)
    (himp : ∀ pre i post, P pre i post → Q pre i post) : EveryPoint Q code :=
  fun pre i post heq => himp pre i post (h pre i post heq)

end Points

/-! ## Functions -/

/-- Behind `pre` a function is open, of which `body` stands before this point. -/
def Within (pre body : List Instr) : Prop :=
  (∃ outer f, pre = outer ++ .define f :: body) ∧ ∀ i ∈ body, i.isStep = true

/-- The functions of a listing: their labels, and their instructions up to `ret`. -/
def sections : List Instr → List (Label × List Instr)
  | [] => []
  | .define f :: rest => (f, rest.takeWhile (· ≠ .ret)) :: sections rest
  | _ :: rest => sections rest

theorem sections_cons {i : Instr} (h : ∀ f, i ≠ .define f) (rest : List Instr) :
    sections (i :: rest) = sections rest := by
  cases i with
  | define f => exact absurd rfl (h f)
  | _ => rfl

theorem sections_append {code : List Instr} (h : ∀ i ∈ code, ∀ f, i ≠ .define f)
    (rest : List Instr) : sections (code ++ rest) = sections rest := by
  induction code with
  | nil => rfl
  | cons i code ih =>
    rw [List.cons_append, sections_cons (h i List.mem_cons_self)]
    exact ih fun j hj => h j (List.mem_cons_of_mem i hj)

/-! ## The instructions of a body -/

/-- The instructions of which the code of an expression is made. -/
inductive ExprInstr (univ : Layer) (ls : List Layer) : Instr → Prop where
  | load {r : Register} {n : Name} {symbol : Symbol} (bound : Layer.find ls n = some symbol) :
      ExprInstr univ ls (.load r symbol.label)
  | binary (r : Register) (op : Opcode) (a b : Value) : ExprInstr univ ls (.binary r op a b)
  | call {r : Register} {f : Name} {symbol : Symbol} {a : Value} (builtin : univ f = some symbol) :
      ExprInstr univ ls (.call r symbol.label a)

/-- The instructions of which the code of statements is made. -/
inductive StmtInstr (m : Mangling) (univ : Layer) : Instr → Prop where
  | expr {ls : List Layer} {i : Instr} (h : ExprInstr univ ls i) : StmtInstr m univ i
  | alloca (text : String) (position : Nat) : StmtInstr m univ (.alloca (m.localSlot text position))
  | store (v : Value) (slot : Label) : StmtInstr m univ (.store v slot)

theorem ExprCode.exprInstr {univ : Layer} {ls : List Layer} {k r : Nat} {t : ExprTree}
    {code : List Instr} (h : ExprCode univ ls k t code r) : ∀ i ∈ code, ExprInstr univ ls i := by
  induction h with
  | ident bound =>
    intro i hi
    exact List.mem_singleton.mp hi ▸ .load bound
  | int fits =>
    intro i hi
    exact List.mem_singleton.mp hi ▸ .binary ..
  | binary arithmetic _ _ ih ih' =>
    intro i hi
    rcases List.mem_append.mp hi with hi | hi
    · exact (List.mem_append.mp hi).elim (ih i) (ih' i)
    · exact List.mem_singleton.mp hi ▸ .binary ..
  | neg _ ih =>
    intro i hi
    rcases List.mem_append.mp hi with hi | hi
    · exact ih i hi
    · exact List.mem_singleton.mp hi ▸ .binary ..
  | pos _ ih => exact ih
  | paren _ ih => exact ih
  | call builtin _ ih =>
    intro i hi
    rcases List.mem_append.mp hi with hi | hi
    · exact ih i hi
    · exact List.mem_singleton.mp hi ▸ .call builtin

theorem InitCode.exprInstr {univ : Layer} {ls : List Layer} {k k' : Nat} {init : Option ExprTree}
    {code : List Instr} {v : Value} (h : InitCode univ ls k init code v k') :
    ∀ i ∈ code, ExprInstr univ ls i := by
  cases h with
  | zero => exact fun i hi => absurd hi List.not_mem_nil
  | expr value => exact value.exprInstr

section Statements

variable {m : Mangling} {names : NameTable} {univ : Layer} {ls ls' : List Layer} {k k' : Nat}
  {ts : List StmtTree} {code : List Instr}

theorem StmtsCode.stmtInstr (h : StmtsCode m names univ ls k ts code ls' k') :
    ∀ i ∈ code, StmtInstr m univ i := by
  induction h with
  | nil => exact fun i hi => absurd hi List.not_mem_nil
  | var value named _ ih =>
    intro i hi
    simp only [List.mem_append, List.mem_cons, List.not_mem_nil, or_false] at hi
    rcases hi with (hi | rfl | rfl) | hi
    · exact .expr (value.exprInstr i hi)
    · exact .alloca ..
    · exact .store ..
    · exact ih i hi
  | assign bound value _ ih =>
    intro i hi
    simp only [List.mem_append, List.mem_singleton] at hi
    rcases hi with (hi | rfl) | hi
    · exact .expr (value.exprInstr i hi)
    · exact .store ..
    · exact ih i hi
  | block _ _ ih ih' =>
    intro i hi
    exact (List.mem_append.mp hi).elim (ih i) (ih' i)
  | expr value _ ih =>
    intro i hi
    rcases List.mem_append.mp hi with hi | hi
    · exact .expr (value.exprInstr i hi)
    · exact ih i hi

/-- The code of statements holds no instruction that delimits functions. -/
theorem StmtsCode.isStep (h : StmtsCode m names univ ls k ts code ls' k') :
    ∀ i ∈ code, i.isStep = true := by
  intro i hi
  cases h.stmtInstr i hi with
  | expr he => cases he <;> rfl
  | alloca => rfl
  | store => rfl

end Statements

theorem ne_define_of_isStep {i : Instr} (h : i.isStep = true) (f : Label) : i ≠ .define f := by
  rintro rfl
  exact Bool.false_ne_true h

theorem ne_ret_of_isStep {i : Instr} (h : i.isStep = true) : i ≠ .ret := by
  rintro rfl
  exact Bool.false_ne_true h

theorem Within.prepend {pre body : List Instr} (h : Within pre body) (code : List Instr) :
    Within (code ++ pre) body := by
  obtain ⟨⟨outer, f, rfl⟩, hsteps⟩ := h
  exact ⟨⟨code ++ outer, f, (List.append_assoc ..).symm⟩, hsteps⟩

/-- The instruction `i`, between `pre` and `post`, belongs to the body of a function. -/
def InBody (ctx : Lowering.Context) (univ globals : Layer) (pre : List Instr) (i : Instr)
    (post : List Instr) : Prop :=
  ∃ t k body inner k' pre' post' rest,
    StmtsCode ctx.mangling ctx.names univ [Layer.empty, globals] k [t] body inner k' ∧
    body = pre' ++ i :: post' ∧ Within pre pre' ∧ post = post' ++ rest

theorem InBody.prepend {ctx : Lowering.Context} {univ globals : Layer} {pre post : List Instr}
    {i : Instr} (h : InBody ctx univ globals pre i post) (code : List Instr) :
    InBody ctx univ globals (code ++ pre) i post := by
  obtain ⟨t, k, body, inner, k', pre', post', rest, hcode, hbody, hwithin, hpost⟩ := h
  exact ⟨t, k, body, inner, k', pre', post', rest, hcode, hbody, hwithin.prepend code, hpost⟩

namespace FunctionsCode

variable {ctx : Lowering.Context} {package : String} {univ globals : Layer} {k k' : Nat}
  {fs : List FunctionDecl} {code : List Instr}

/-- **The sections of a listing are the functions with a body**, each with its label and the code
of its body. -/
theorem sections_forall₂ (h : FunctionsCode ctx package univ globals k fs code k') :
    List.Forall₂ (fun f sec => ∃ text body t k₀ inner k₁,
        ctx.names.text? f.name = some text ∧ sec.1 = ctx.mangling.function package text ∧
        f.body = some body ∧ ctx.nodes.stmtTree body = some t ∧
        StmtsCode ctx.mangling ctx.names univ [Layer.empty, globals] k₀ [t] sec.2 inner k₁)
      (fs.filter (·.body.isSome)) (sections code) := by
  induction h with
  | nil => exact .nil
  | declared named bodyless _ ih =>
    rw [List.filter_cons_of_neg (by simp [bodyless]), sections_cons (by simp)]
    exact ih
  | @defined k k₁ k' f text body t inner rest code code' named hasBody unfolds within _ ih =>
    have htake : (code ++ [Instr.ret, .close] ++ code').takeWhile (· ≠ .ret) = code := by
      rw [List.append_assoc, List.takeWhile_append_of_pos]
      · simp
      · exact fun i hi => decide_eq_true (ne_ret_of_isStep (within.isStep i hi))
    have hrest : sections (code ++ [.ret, .close] ++ code') = sections code' := by
      rw [List.append_assoc, sections_append fun i hi => ne_define_of_isStep (within.isStep i hi)]
      rfl
    rw [List.filter_cons_of_pos (by simp [hasBody])]
    simp only [List.cons_append, sections, htake, hrest]
    exact .cons ⟨text, body, t, k, inner, k₁, named, rfl, hasBody, unfolds, within⟩ ih

/-- **What the code of functions holds is what the code of their bodies holds**, one body after the
other: of everything but the marks around bodies, `view` sees the same in both. -/
theorem filterMap_eq (h : FunctionsCode ctx package univ globals k fs code k') :
    ∃ bodies chunks, (fs.filterMap (·.body)).mapM ctx.nodes.stmtTree = some bodies ∧
      List.Forall₂ (fun t chunk => ∃ k₀ inner k₁, StmtsCode ctx.mangling ctx.names univ
        [Layer.empty, globals] k₀ [t] chunk inner k₁) bodies chunks ∧
      ∀ {α : Type} {view : Instr → Option α}, (∀ f, view (.declare f) = none) →
        (∀ f, view (.define f) = none) → view .ret = none → view .close = none →
        code.filterMap view = chunks.flatMap (·.filterMap view) := by
  induction h with
  | nil => exact ⟨[], [], rfl, .nil, fun _ _ _ _ => rfl⟩
  | declared named bodyless _ ih =>
    obtain ⟨bodies, chunks, hbodies, hchunks, hview⟩ := ih
    refine ⟨bodies, chunks, by rw [List.filterMap_cons_none bodyless, hbodies], hchunks, ?_⟩
    intro α view hdeclare hdefine hret hclose
    rw [List.filterMap_cons_none (hdeclare _), hview hdeclare hdefine hret hclose]
  | @defined k k₁ k' f text body t inner rest code code' named hasBody unfolds within _ ih =>
    obtain ⟨bodies, chunks, hbodies, hchunks, hview⟩ := ih
    refine ⟨t :: bodies, code :: chunks, ?_, .cons ⟨k, inner, k₁, within⟩ hchunks, ?_⟩
    · rw [List.filterMap_cons_some hasBody]
      simp [unfolds, hbodies]
    · intro α view hdeclare hdefine hret hclose
      have hmarks : [Instr.ret, .close].filterMap view = [] := by
        rw [List.filterMap_cons_none hret, List.filterMap_cons_none hclose, List.filterMap_nil]
      rw [List.filterMap_append, List.filterMap_append, List.filterMap_cons_none (hdefine _),
        hmarks, List.append_nil, hview hdeclare hdefine hret hclose, List.flatMap_cons]

/-- An instruction that does something belongs to the body of a function. -/
theorem point (h : FunctionsCode ctx package univ globals k fs code k') :
    EveryPoint (fun pre i post => i.isStep = true → InBody ctx univ globals pre i post) code := by
  induction h with
  | nil => exact everyPoint_nil
  | declared named bodyless _ ih =>
    refine .cons (fun h => absurd h Bool.false_ne_true) (ih.imp ?_)
    intro pre i post hin hi
    exact (hin hi).prepend [_]
  | @defined k k₁ k' f text body t inner rest code code' named hasBody unfolds within _ ih =>
    rw [List.append_assoc, List.cons_append]
    refine .cons (fun h => absurd h Bool.false_ne_true) (.append ?_ ?_)
    · intro pre i post heq hi
      refine ⟨t, k, code, inner, k₁, pre, post, _, within, heq, ⟨⟨[], _, rfl⟩, ?_⟩, rfl⟩
      intro j hj
      exact within.isStep j (by simp [heq, hj])
    · refine .cons (fun h => absurd h Bool.false_ne_true)
        (.cons (fun h => absurd h Bool.false_ne_true) (ih.imp ?_))
      intro pre i post hin hi
      have := (hin hi).prepend (.define (ctx.mangling.function package text) :: code ++
        [.ret, .close])
      simpa using this

end FunctionsCode

/-- The functions of a listing are those of its functions' code. -/
theorem Compiler.sections_assemble (c : Compiler) (names : NameTable) (u : SourceUnit)
    (package : String) (globals : List Symbol) (functions : List Instr) :
    sections (c.assemble names u package globals functions).instrs = sections functions := by
  rw [Compiler.instrs_assemble, sections_append]
  intro i hi f
  obtain ⟨s, -, rfl⟩ := List.mem_map.mp hi
  exact Instr.noConfusion

/-- **Every instruction of a listing that does something belongs to the body of a function**: it is
an instruction of the code of that body, and what stands before it in the function stands before
it in the body. -/
theorem Compiler.UnitCode.point {c : Compiler} {names : NameTable} {u : SourceUnit}
    {package : String} {globals : List Symbol} {functions : List Instr} {k : Nat}
    (h : c.UnitCode names u package globals functions k) :
    EveryPoint (fun pre i post => i.isStep = true →
        InBody (c.context names u) (c.builtinLayer names) (Layer.ofSymbols globals) pre i post)
      (c.assemble names u package globals functions).instrs := by
  rw [Compiler.instrs_assemble]
  refine .append ?_ (h.functionsCode.point.imp fun pre i post hin hi => (hin hi).prepend _)
  intro pre i post heq hi
  have hmem : i ∈ globals.map fun s => Instr.global s.label := by simp [heq]
  obtain ⟨s, -, rfl⟩ := List.mem_map.mp hmem
  exact absurd hi Bool.false_ne_true

end RegisterCode
