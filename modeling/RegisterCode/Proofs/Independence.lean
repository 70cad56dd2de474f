import RegisterCode.Proofs.Acceptance
import RegisterCode.Proofs.Registers

/-!
# Functions compile on their own

The functions of a unit see the variables of the package and nothing of one another; what is handed
on from one to the next is the number of the next register. The code of a function is therefore
the same in every unit with the same variables, up to a shift of its registers, and so is the way
in which a unit fails.

Results: code of the same source from another register on is the shifted code
(`FunctionsCode.eq_shift`), and the text of a unit is put together from the chunks of its functions
(`Compiler.functions_compile_apart`).
-/

namespace RegisterCode

/-! ## Shifting registers -/

/-- The register `d` further on. -/
def Register.shift (d : Nat) (r : Register) : Register := ⟨r.index + d⟩

/-- The operand with its register shifted. -/
def Value.shift (d : Nat) : Value → Value
  | .reg r => .reg (r.shift d)
  | .imm n => .imm n

/-- The instruction with all its registers shifted. -/
def Instr.shift (d : Nat) : Instr → Instr
  | .store value slot => .store (value.shift d) slot
  | .load target slot => .load (target.shift d) slot
  | .binary target op left right => .binary (target.shift d) op (left.shift d) (right.shift d)
  | .call target function argument => .call (target.shift d) function (argument.shift d)
  | .global slot => .global slot
  | .declare function => .declare function
  | .define function => .define function
  | .alloca slot => .alloca slot
  | .ret => .ret
  | .close => .close

@[simp]
theorem Value.shift_zero (v : Value) : v.shift 0 = v := by
  cases v <;> rfl

@[simp]
theorem Instr.shift_zero (i : Instr) : i.shift 0 = i := by
  cases i <;> simp [shift, Register.shift]

theorem map_shift_zero (code : List Instr) : code.map (Instr.shift 0) = code :=
  (List.map_congr_left fun i _ => i.shift_zero).trans (List.map_id code)

theorem Instr.isStep_shift (d : Nat) (i : Instr) : (i.shift d).isStep = i.isStep := by
  cases i <;> rfl

section Shift

variable {univ : Layer} {ls : List Layer} {d k r r' : Nat} {code code' : List Instr}

/-- The code of a tree from another register on is the shifted code. -/
theorem ExprCode.eq_shift {t : ExprTree} (h : ExprCode univ ls k t code r)
    (h' : ExprCode univ ls (k + d) t code' r') :
    code' = code.map (Instr.shift d) ∧ r' = r + d := by
  induction h generalizing code' r' with
  | ident bound =>
    cases h' with
    | ident bound' =>
      obtain rfl := Option.some.inj (bound.symm.trans bound')
      exact ⟨rfl, rfl⟩
  | int fits =>
    cases h' with
    | int fits' =>
      obtain rfl := Option.some.inj (fits.symm.trans fits')
      exact ⟨rfl, rfl⟩
  | @binary k a b site op opcode left right code code₁ arithmetic _ _ ih ih' =>
    cases h' with
    | binary arithmetic' first second =>
      obtain rfl := Option.some.inj (arithmetic.symm.trans arithmetic')
      obtain ⟨rfl, rfl⟩ := ih first
      rw [Nat.add_right_comm] at second
      obtain ⟨rfl, rfl⟩ := ih' second
      rw [List.map_append, List.map_append, Nat.add_right_comm]
      exact ⟨rfl, rfl⟩
  | @neg k a site t code _ ih =>
    cases h' with
    | neg operand =>
      obtain ⟨rfl, rfl⟩ := ih operand
      rw [List.map_append, Nat.add_right_comm]
      exact ⟨rfl, rfl⟩
  | pos _ ih =>
    cases h' with
    | pos operand => exact ih operand
  | paren _ ih =>
    cases h' with
    | paren inner => exact ih inner
  | @call k a site f symbol arg code builtin _ ih =>
    cases h' with
    | call builtin' argument =>
      obtain rfl := Option.some.inj (builtin.symm.trans builtin')
      obtain ⟨rfl, rfl⟩ := ih argument
      rw [List.map_append, Nat.add_right_comm]
      exact ⟨rfl, rfl⟩

theorem InitCode.eq_shift {init : Option ExprTree} {v v' : Value} {k₁ k₂ : Nat}
    (h : InitCode univ ls k init code v k₁) (h' : InitCode univ ls (k + d) init code' v' k₂) :
    code' = code.map (Instr.shift d) ∧ v' = v.shift d ∧ k₂ = k₁ + d := by
  cases h with
  | zero =>
    cases h'
    exact ⟨rfl, rfl, rfl⟩
  | expr value =>
    cases h' with
    | expr value' =>
      obtain ⟨rfl, rfl⟩ := value.eq_shift value'
      exact ⟨rfl, rfl, Nat.add_right_comm ..⟩

/-- The code of statements from another register on is the shifted code, and binds the same. -/
theorem StmtsCode.eq_shift {m : Mangling} {names : NameTable} {ls₁ ls₂ : List Layer} {k₁ k₂ : Nat}
    {ts : List StmtTree} (h : StmtsCode m names univ ls k ts code ls₁ k₁)
    (h' : StmtsCode m names univ ls (k + d) ts code' ls₂ k₂) :
    code' = code.map (Instr.shift d) ∧ ls₂ = ls₁ ∧ k₂ = k₁ + d := by
  -- the statements decide the rule, so both derivations end with the same one
  induction h generalizing code' ls₂ k₂ with
  | nil =>
    cases h'
    exact ⟨rfl, rfl, rfl⟩
  | var value named _ ih =>
    cases h' with
    | var value' named' next =>
      obtain rfl := Option.some.inj (named.symm.trans named')
      obtain ⟨rfl, rfl, rfl⟩ := value.eq_shift value'
      obtain ⟨rfl, rfl, rfl⟩ := ih next
      rw [List.map_append, List.map_append]
      exact ⟨rfl, rfl, rfl⟩
  | assign bound value _ ih =>
    cases h' with
    | assign bound' value' next =>
      obtain rfl := Option.some.inj (bound.symm.trans bound')
      obtain ⟨rfl, rfl⟩ := value.eq_shift value'
      rw [Nat.add_right_comm] at next
      obtain ⟨rfl, rfl, rfl⟩ := ih next
      rw [List.map_append, List.map_append]
      exact ⟨rfl, rfl, rfl⟩
  | block _ _ ih ih' =>
    cases h' with
    | block within next =>
      obtain ⟨rfl, rfl, rfl⟩ := ih within
      obtain ⟨rfl, rfl, rfl⟩ := ih' next
      rw [List.map_append]
      exact ⟨rfl, rfl, rfl⟩
  | expr value _ ih =>
    cases h' with
    | expr value' next =>
      obtain ⟨rfl, rfl⟩ := value.eq_shift value'
      rw [Nat.add_right_comm] at next
      obtain ⟨rfl, rfl, rfl⟩ := ih next
      rw [List.map_append]
      exact ⟨rfl, rfl, rfl⟩

end Shift

namespace FunctionsCode

variable {ctx : Lowering.Context} {package : String} {univ globals : Layer} {d k k₁ k₂ : Nat}
  {fs gs : List FunctionDecl} {code code' : List Instr}

/-- **The code of functions from another register on is the shifted code.** -/
theorem eq_shift (h : FunctionsCode ctx package univ globals k fs code k₁)
    (h' : FunctionsCode ctx package univ globals (k + d) fs code' k₂) :
    code' = code.map (Instr.shift d) ∧ k₂ = k₁ + d := by
  induction h generalizing code' k₂ with
  | nil =>
    cases h'
    exact ⟨rfl, rfl⟩
  | declared named bodyless _ ih =>
    cases h' with
    | declared named' _ next =>
      obtain rfl := Option.some.inj (named.symm.trans named')
      obtain ⟨rfl, rfl⟩ := ih next
      exact ⟨rfl, rfl⟩
    | defined _ hasBody => exact absurd (bodyless.symm.trans hasBody) (by simp)
  | defined named hasBody unfolds within _ ih =>
    cases h' with
    | declared _ bodyless => exact absurd (bodyless.symm.trans hasBody) (by simp)
    | defined named' hasBody' unfolds' within' next =>
      obtain rfl := Option.some.inj (named.symm.trans named')
      obtain rfl := Option.some.inj (hasBody.symm.trans hasBody')
      obtain rfl := Option.some.inj (unfolds.symm.trans unfolds')
      obtain ⟨rfl, rfl, rfl⟩ := within.eq_shift within'
      obtain ⟨rfl, rfl⟩ := ih next
      rw [List.map_append, List.map_append, List.map_cons]
      exact ⟨rfl, rfl⟩

/-- The code of functions depends on the functions alone. -/
theorem unique (h : FunctionsCode ctx package univ globals k fs code k₁)
    (h' : FunctionsCode ctx package univ globals k fs code' k₂) : code' = code ∧ k₂ = k₁ := by
  obtain ⟨rfl, rfl⟩ := h.eq_shift (d := 0) h'
  exact ⟨map_shift_zero code, rfl⟩

/-- The code of functions is that of the first ones, then that of the others. -/
theorem split (h : FunctionsCode ctx package univ globals k (fs ++ gs) code k₂) :
    ∃ code₁ k₁ code₂, code = code₁ ++ code₂ ∧
      FunctionsCode ctx package univ globals k fs code₁ k₁ ∧
      FunctionsCode ctx package univ globals k₁ gs code₂ k₂ := by
  induction fs generalizing k code with
  | nil => exact ⟨[], k, code, rfl, .nil, h⟩
  | cons f fs ih =>
    cases h with
    | declared named bodyless next =>
      obtain ⟨code₁, k₁, code₂, rfl, hfs, hgs⟩ := ih next
      exact ⟨_, k₁, code₂, rfl, .declared named bodyless hfs, hgs⟩
    | defined named hasBody unfolds within next =>
      obtain ⟨code₁, k₁, code₂, rfl, hfs, hgs⟩ := ih next
      exact ⟨_, k₁, code₂, (List.append_assoc ..).symm,
        .defined named hasBody unfolds within hfs, hgs⟩

/-- The next register is behind as many as the code writes. -/
theorem next_eq (h : FunctionsCode ctx package univ globals k fs code k₁) :
    k₁ = k + (registersWritten code).length := by
  induction h with
  | nil => rfl
  | declared named bodyless _ ih => exact ih
  | @defined k k₁ k' f text body t inner rest code code' named hasBody unfolds within _ ih =>
    have hwritten : (registersWritten code).length = StmtTree.visitsAll [t] := by
      rw [within.takesRegisters.written, registersFrom, List.length_map, List.length_range']
    have hsplit : registersWritten (.define (ctx.mangling.function package text) :: code ++
        [.ret, .close] ++ code') = registersWritten code ++ registersWritten code' := by
      rw [registersWritten_append, registersWritten_append]
      exact congrArg (· ++ registersWritten code') (List.append_nil (registersWritten code))
    rw [hsplit, List.length_append, hwritten, ← Nat.add_assoc, ← within.next_eq]
    exact ih

end FunctionsCode

/-! ## Chunks -/

/-- A chunk is what a function contributes to a listing: its declaration, or its code. -/
def IsChunk (m : Mangling) (names : NameTable) (package : String) (f : FunctionDecl)
    (chunk : List Instr) : Prop :=
  ∃ text, names.text? f.name = some text ∧
    match f.body with
    | none => chunk = [.declare (m.function package text)]
    | some _ => ∃ steps, (∀ i ∈ steps, i.isStep = true) ∧
        chunk = .define (m.function package text) :: steps ++ [.ret, .close]

theorem IsChunk.shift {m : Mangling} {names : NameTable} {package : String} {f : FunctionDecl}
    {chunk : List Instr} (h : IsChunk m names package f chunk) (d : Nat) :
    IsChunk m names package f (chunk.map (Instr.shift d)) := by
  obtain ⟨text, htext, hchunk⟩ := h
  refine ⟨text, htext, ?_⟩
  cases hb : f.body with
  | none =>
    rw [hb] at hchunk
    rw [hchunk]
    rfl
  | some body =>
    rw [hb] at hchunk
    obtain ⟨steps, hsteps, rfl⟩ := hchunk
    refine ⟨steps.map (Instr.shift d), fun i hi => ?_, by simp [Instr.shift]⟩
    obtain ⟨j, hj, rfl⟩ := List.mem_map.mp hi
    rw [Instr.isStep_shift]
    exact hsteps j hj

theorem IsChunk.exists_mem {m : Mangling} {names : NameTable} {package : String}
    {fs : List FunctionDecl} {chunks : List (List Instr)}
    (h : List.Forall₂ (IsChunk m names package) fs chunks) {f : FunctionDecl} (hf : f ∈ fs) :
    ∃ chunk ∈ chunks, IsChunk m names package f chunk := by
  induction h with
  | nil => exact absurd hf List.not_mem_nil
  | @cons g chunk fs chunks hchunk _ ih =>
    rcases List.mem_cons.mp hf with rfl | hf
    · exact ⟨chunk, List.mem_cons_self, hchunk⟩
    · obtain ⟨chunk', hmem, hchunk'⟩ := ih hf
      exact ⟨chunk', List.mem_cons_of_mem chunk hmem, hchunk'⟩

/-- A chunk defines its function, if that has a body. -/
theorem IsChunk.define_mem_iff {m : Mangling} {names : NameTable} {package : String}
    {f : FunctionDecl} {chunk : List Instr} (h : IsChunk m names package f chunk) {label : Label} :
    .define label ∈ chunk ↔ f.body.isSome = true ∧
      ∃ text, names.text? f.name = some text ∧ label = m.function package text := by
  obtain ⟨text, htext, hchunk⟩ := h
  cases hb : f.body with
  | none =>
    rw [hb] at hchunk
    simp [hchunk]
  | some body =>
    rw [hb] at hchunk
    obtain ⟨steps, hsteps, rfl⟩ := hchunk
    have hnot : Instr.define label ∉ steps := fun hmem => ne_define_of_isStep (hsteps _ hmem) _ rfl
    simp [hnot, htext]

/-- The code of functions is one chunk for each of them. -/
theorem FunctionsCode.chunks {ctx : Lowering.Context} {package : String} {univ globals : Layer}
    {k k' : Nat} {fs : List FunctionDecl} {code : List Instr} {names : NameTable}
    (h : FunctionsCode ctx package univ globals k fs code k')
    (hnames : ∀ f ∈ fs, names.text? f.name = ctx.names.text? f.name) :
    ∃ chunks, code = chunks.flatten ∧
      List.Forall₂ (IsChunk ctx.mangling names package) fs chunks := by
  induction h with
  | nil => exact ⟨[], rfl, .nil⟩
  | @declared k k' f text rest code named bodyless _ ih =>
    obtain ⟨chunks, rfl, hchunks⟩ := ih fun g hg => hnames g (List.mem_cons_of_mem f hg)
    refine ⟨[.declare (ctx.mangling.function package text)] :: chunks, rfl,
      .cons ⟨text, ?_, ?_⟩ hchunks⟩
    · rw [hnames f List.mem_cons_self, named]
    · rw [bodyless]
  | @defined k k₁ k' f text body t inner rest code code' named hasBody unfolds within _ ih =>
    obtain ⟨chunks, rfl, hchunks⟩ := ih fun g hg => hnames g (List.mem_cons_of_mem f hg)
    refine ⟨_ :: chunks, rfl, .cons ⟨text, ?_, ?_⟩ hchunks⟩
    · rw [hnames f List.mem_cons_self, named]
    · rw [hasBody]
      exact ⟨code, within.isStep, rfl⟩

/-- The lines of code. -/
def linesOf : List Instr → String
  | [] => ""
  | i :: rest => i.line ++ linesOf rest

theorem Listing.text_append (l : Listing) (code : List Instr) :
    (l.append code).text = l.text ++ linesOf code := by
  induction code generalizing l with
  | nil => rw [append_nil, linesOf, String.append_empty]
  | cons i code ih =>
    have hcons : l.append (i :: code) = (l.instr i).append code := by
      rw [instr_eq_append, append_append]
      rfl
    rw [hcons, ih, text_instr, linesOf, String.append_assoc]

theorem Listing.text_blankLine (l : Listing) : l.blankLine.text = l.text ++ "\n" :=
  l.text_verbatim "\n"

namespace Compiler

variable {c : Compiler} {names : NameTable} {u : SourceUnit} {package : String}
  {globals : List Symbol} {functions : List Instr} {k : Nat}

/-- The slots of the variables of a package. -/
def slots (c : Compiler) (names : NameTable) (u : SourceUnit) (package : String) : List Instr :=
  u.globals.map fun g => .global (c.mangling.global package ((names.text? g.name).getD ""))

/-- The program starts in the unit: it is the entry package, and it defines the entry function. -/
def Starts (c : Compiler) (names : NameTable) (u : SourceUnit) : Prop :=
  names.text? u.package = some c.config.entryPackage ∧
    ∃ f ∈ u.functions, f.body.isSome = true ∧ names.text? f.name = some c.config.entryFunction

instance (c : Compiler) (names : NameTable) (u : SourceUnit) : Decidable (c.Starts names u) :=
  inferInstanceAs (Decidable (_ ∧ _))

/-- The text of a unit whose functions have the given chunks. -/
def textWith (c : Compiler) (names : NameTable) (u : SourceUnit) (package : String)
    (chunks : List (List Instr)) : String :=
  "; package " ++ package ++ "\n" ++ c.builtins.preamble ++ "\n" ++
  linesOf (c.slots names u package) ++
  (if u.globals = [] then "" else "\n") ++
  linesOf chunks.flatten ++
  if c.Starts names u then c.builtins.trampoline else ""

/-- A listing of a unit is put together from the chunks of its functions. -/
structure HasChunks (c : Compiler) (names : NameTable) (u : SourceUnit) (package : String)
    (listing : Listing) (chunks : List (List Instr)) : Prop where
  isChunk : List.Forall₂ (IsChunk c.mangling names package) u.functions chunks
  instrs_eq : listing.instrs = c.slots names u package ++ chunks.flatten
  text_eq : listing.text = c.textWith names u package chunks

/-- While a unit is compiled, its names keep their texts. -/
theorem text_tableWithBuiltins {n : Name} (h : n.index < names.size) :
    (c.tableWithBuiltins names).text? n = names.text? n := by
  obtain ⟨text, htext⟩ := InternTable.exists_text h
  rw [htext]
  exact c.tableWithBuiltins_extends names n text htext

theorem isEntry_iff (hu : u.InBounds names) :
    c.isEntry (c.tableWithBuiltins names) u = true ↔ c.Starts names u := by
  unfold isEntry Starts
  rw [text_tableWithBuiltins hu.package, Bool.and_eq_true, beq_iff_eq, List.any_eq_true]
  refine and_congr_right fun _ => exists_congr fun f => and_congr_right fun hf => ?_
  rw [text_tableWithBuiltins (hu.functions f hf), Bool.and_eq_true, beq_iff_eq]

/-- The slots of the package are those of its symbols. -/
theorem map_globalSymbols {index : Nat} {gs : List GlobalDecl}
    (h : globalSymbols c.mangling (c.tableWithBuiltins names) package index gs = some globals)
    (hgs : ∀ g ∈ gs, g.name.index < names.size) :
    globals.map (fun s => Instr.global s.label) = gs.map fun g =>
      .global (c.mangling.global package ((names.text? g.name).getD "")) := by
  induction gs generalizing index globals with
  | nil =>
    cases h
    rfl
  | cons g gs ih =>
    obtain ⟨text, symbols, htext, hrest, rfl⟩ := globalSymbols_cons.mp h
    rw [text_tableWithBuiltins (hgs g List.mem_cons_self)] at htext
    rw [List.map_cons, List.map_cons, htext,
      ih hrest fun g' hg' => hgs g' (List.mem_cons_of_mem g hg')]
    rfl

theorem UnitCode.map_globals (h : c.UnitCode names u package globals functions k)
    (hu : u.InBounds names) :
    globals.map (fun s => Instr.global s.label) = c.slots names u package :=
  map_globalSymbols h.globalSymbols_eq hu.globals

theorem UnitCode.text_eq (h : c.UnitCode names u package globals functions k)
    (hu : u.InBounds names) {chunks : List (List Instr)} (hchunks : functions = chunks.flatten) :
    (c.assemble names u package globals functions).text = c.textWith names u package chunks := by
  have hhead : ∀ l : Listing, (if u.globals.isEmpty then l else l.blankLine).text =
      l.text ++ if u.globals = [] then "" else "\n" := by
    intro l
    by_cases hnil : u.globals = []
    · rw [if_pos hnil, if_pos (List.isEmpty_iff.mpr hnil), String.append_empty]
    · rw [if_neg hnil, if_neg (mt List.isEmpty_iff.mp hnil), Listing.text_blankLine]
  unfold assemble textWith
  rw [← hchunks, ← h.map_globals hu]
  by_cases hstart : c.isEntry (c.tableWithBuiltins names) u = true
  · rw [if_pos hstart, if_pos ((isEntry_iff hu).mp hstart)]
    simp only [Listing.text_append, Listing.text_verbatim, hhead, Listing.text_blankLine,
      Listing.text_empty, String.empty_append]
  · rw [if_neg hstart, if_neg (mt (isEntry_iff hu).mpr hstart), String.append_empty]
    simp only [Listing.text_append, Listing.text_verbatim, hhead, Listing.text_blankLine,
      Listing.text_empty, String.empty_append]

theorem UnitCode.hasChunks (h : c.UnitCode names u package globals functions k)
    (hu : u.InBounds names) {chunks : List (List Instr)} (hcode : functions = chunks.flatten)
    (hchunks : List.Forall₂ (IsChunk c.mangling names package) u.functions chunks) :
    c.HasChunks names u package (c.assemble names u package globals functions) chunks where
  isChunk := hchunks
  instrs_eq := by rw [instrs_assemble, h.map_globals hu, hcode]
  text_eq := h.text_eq hu hcode

/-- **What a unit is translated to is put together from the chunks of its functions.** -/
theorem UnitCode.exists_chunks (h : c.UnitCode names u package globals functions k)
    (hu : u.InBounds names) :
    ∃ chunks, functions = chunks.flatten ∧
      c.HasChunks names u package (c.assemble names u package globals functions) chunks := by
  obtain ⟨chunks, hcode, hchunks⟩ := h.functionsCode.chunks
    fun f hf => (text_tableWithBuiltins (hu.functions f hf)).symm
  exact ⟨chunks, hcode, h.hasChunks hu hcode hchunks⟩

/-- **A listing defines the functions that have a body**, and no others. -/
theorem HasChunks.define_mem_iff {listing : Listing} {chunks : List (List Instr)}
    (h : c.HasChunks names u package listing chunks) {label : Label} :
    .define label ∈ listing.instrs ↔ ∃ f ∈ u.functions, f.body.isSome = true ∧
      ∃ text, names.text? f.name = some text ∧ label = c.mangling.function package text := by
  rw [h.instrs_eq, List.mem_append, List.mem_flatten]
  constructor
  · rintro (hslot | ⟨chunk, hchunk, hdefine⟩)
    · obtain ⟨g, -, hg⟩ := List.mem_map.mp hslot
      exact absurd hg Instr.noConfusion
    · obtain ⟨f, hf, hform⟩ := exists_of_mem_right h.isChunk hchunk
      exact ⟨f, hf, hform.define_mem_iff.mp hdefine⟩
  · rintro ⟨f, hf, hdefined⟩
    obtain ⟨chunk, hchunk, hform⟩ := IsChunk.exists_mem h.isChunk hf
    exact .inr ⟨chunk, hchunk, hform.define_mem_iff.mpr hdefined⟩

end Compiler

/-! ## Some of the functions -/

/-- The unit with other functions. -/
def SourceUnit.withFunctions (u : SourceUnit) (fs : List FunctionDecl) : SourceUnit :=
  { u with functions := fs }

theorem SourceUnit.WellFormed.withFunctions {u : SourceUnit} {names : NameTable}
    (h : u.WellFormed names) {fs : List FunctionDecl} (hfs : fs ⊆ u.functions) :
    (u.withFunctions fs).WellFormed names where
  package := h.package
  globals := h.globals
  functions f hf := h.functions f (hfs hf)
  bodies f hf := h.bodies f (hfs hf)
  nodes := h.nodes
  acyclic := h.acyclic

theorem SourceUnit.bodies_of_append {u : SourceUnit} {fs gs : List FunctionDecl}
    {bodies bodies' : List StmtTree} (hfs : u.functions = fs ++ gs)
    (h : (u.withFunctions fs).bodies = some bodies)
    (h' : (u.withFunctions gs).bodies = some bodies') : u.bodies = some (bodies ++ bodies') := by
  have h : (fs.filterMap (·.body)).mapM u.nodes.stmtTree = some bodies := h
  have h' : (gs.filterMap (·.body)).mapM u.nodes.stmtTree = some bodies' := h'
  simp [SourceUnit.bodies, hfs, h, h']

namespace Compiler

variable {c : Compiler} {names : NameTable} {u : SourceUnit}

/-- **Whether a unit compiles, and how it fails, is decided function by function**: a unit fails as
its first functions do, else as the others do, else it compiles. -/
theorem outcome_of_append (hu : u.WellFormed names) {fs gs : List FunctionDecl}
    (hfs : u.functions = fs ++ gs) :
    match (c.compile names (u.withFunctions fs)).outcome,
      (c.compile names (u.withFunctions gs)).outcome with
    | .error e, _ => (c.compile names u).outcome = .error e
    | .ok _, .error e => (c.compile names u).outcome = .error e
    | .ok _, .ok _ => ∃ whole, (c.compile names u).outcome = .ok whole := by
  have hwf : (u.withFunctions fs).WellFormed names :=
    hu.withFunctions (by simp [hfs])
  have hwg : (u.withFunctions gs).WellFormed names :=
    hu.withFunctions (by simp [hfs])
  obtain ⟨bs, hbs⟩ := hwf.exists_bodies
  obtain ⟨bs', hbs'⟩ := hwg.exists_bodies
  have hwhole := compile_judged_builtinLayer (c := c) hu (SourceUnit.bodies_of_append hfs hbs hbs')
  have hfirst := compile_judged_builtinLayer (c := c) hwf hbs
  have hsecond := compile_judged_builtinLayer (c := c) hwg hbs'
  have hglobals : ∀ fs, (u.withFunctions fs).globals = u.globals := fun _ => rfl
  have hnodes : ∀ fs, (u.withFunctions fs).nodes = u.nodes := fun _ => rfl
  -- the offences of the unit are those of the first functions, then those of the others
  rw [List.flatMap_append] at hwhole
  rw [hglobals, hnodes] at hfirst hsecond
  generalize bs.flatMap _ = os at hfirst hwhole
  generalize bs'.flatMap _ = os' at hsecond hwhole
  cases os with
  | cons o os =>
    obtain ⟨r, hr, hfails⟩ := hfirst
    obtain ⟨r', hr', hfails'⟩ := hwhole
    obtain rfl := Except.ok.inj (hr.symm.trans hr')
    rw [hfails]
    exact hfails'
  | nil =>
    obtain ⟨first, hok⟩ := hfirst
    rw [hok]
    cases os' with
    | cons o os' =>
      obtain ⟨r, hr, hfails⟩ := hsecond
      obtain ⟨r', hr', hfails'⟩ := hwhole
      obtain rfl := Except.ok.inj (hr.symm.trans hr')
      rw [hfails]
      exact hfails'
    | nil =>
      obtain ⟨second, hok'⟩ := hsecond
      rw [hok']
      exact hwhole

/-- The slots of the package take no registers. -/
theorem registersWritten_assemble (c : Compiler) (names : NameTable) (u : SourceUnit)
    (package : String) (globals : List Symbol) (functions : List Instr) :
    registersWritten (c.assemble names u package globals functions).instrs =
      registersWritten functions := by
  rw [instrs_assemble, registersWritten_append]
  have hnone : registersWritten (globals.map fun s => Instr.global s.label) = [] := by
    simp [registersWritten, Instr.target?]
  rw [hnone, List.nil_append]

/-- **The code of a unit's functions is that of the first ones, then the shifted code of the
others.** -/
theorem UnitCode.code_of_append {package package₁ package₂ : String}
    {globals globals₁ globals₂ : List Symbol} {code code₁ code₂ : List Instr} {k k₁ k₂ : Nat}
    {fs gs : List FunctionDecl} (hfs : u.functions = fs ++ gs)
    (h : c.UnitCode names u package globals code k)
    (h₁ : c.UnitCode names (u.withFunctions fs) package₁ globals₁ code₁ k₁)
    (h₂ : c.UnitCode names (u.withFunctions gs) package₂ globals₂ code₂ k₂) :
    package₁ = package ∧ package₂ = package ∧
      code = code₁ ++ code₂.map (Instr.shift (registersWritten code₁).length) := by
  obtain rfl : package₁ = package := Option.some.inj (h₁.packageText.symm.trans h.packageText)
  obtain rfl : package₂ = package₁ := Option.some.inj (h₂.packageText.symm.trans h.packageText)
  obtain rfl : globals₁ = globals :=
    Option.some.inj (h₁.globalSymbols_eq.symm.trans h.globalSymbols_eq)
  obtain rfl : globals₂ = globals₁ :=
    Option.some.inj (h₂.globalSymbols_eq.symm.trans h.globalSymbols_eq)
  have hcode := h.functionsCode
  rw [hfs] at hcode
  obtain ⟨first, k', second, rfl, hfirst, hsecond⟩ := hcode.split
  obtain ⟨rfl, rfl⟩ := FunctionsCode.unique h₁.functionsCode hfirst
  have hnext := h₁.functionsCode.next_eq
  rw [hnext] at hsecond
  obtain ⟨rfl, -⟩ := FunctionsCode.eq_shift h₂.functionsCode hsecond
  exact ⟨rfl, rfl, rfl⟩

/-- **Functions compile on their own.** If the first functions of a unit fail, the unit fails in the
same way; else, if the others fail, it fails as they do. If neither fails, the unit has the chunks
of the first functions as they are there, and behind them those of the other functions, with all
registers shifted by as many as the first functions take. -/
theorem functions_compile_apart (hu : u.WellFormed names) {fs gs : List FunctionDecl}
    (hfs : u.functions = fs ++ gs) :
    ∃ package, names.text? u.package = some package ∧
      match (c.compile names (u.withFunctions fs)).outcome,
        (c.compile names (u.withFunctions gs)).outcome with
      | .error e, _ => (c.compile names u).outcome = .error e
      | .ok _, .error e => (c.compile names u).outcome = .error e
      | .ok first, .ok second => ∃ whole chunks chunks',
          (c.compile names u).outcome = .ok whole ∧
          c.HasChunks names (u.withFunctions fs) package first chunks ∧
          c.HasChunks names (u.withFunctions gs) package second chunks' ∧
          c.HasChunks names u package whole (chunks ++ chunks'.map
            (·.map (Instr.shift (registersWritten first.instrs).length))) := by
  obtain ⟨package, hpackage⟩ := InternTable.exists_text hu.package
  refine ⟨package, hpackage, ?_⟩
  have houtcome := outcome_of_append (c := c) hu hfs
  cases hfirst : (c.compile names (u.withFunctions fs)).outcome with
  | error e =>
    rw [hfirst] at houtcome
    exact houtcome
  | ok first =>
    cases hsecond : (c.compile names (u.withFunctions gs)).outcome with
    | error e =>
      rw [hfirst, hsecond] at houtcome
      exact houtcome
    | ok second =>
      rw [hfirst, hsecond] at houtcome
      obtain ⟨whole, hwhole⟩ := houtcome
      obtain ⟨p, globals, code, k, hunit, rfl⟩ := compile_translates hwhole
      obtain ⟨p₁, globals₁, code₁, k₁, hunit₁, rfl⟩ := compile_translates hfirst
      obtain ⟨p₂, globals₂, code₂, k₂, hunit₂, rfl⟩ := compile_translates hsecond
      obtain rfl : p = package := Option.some.inj (hunit.packageText.symm.trans hpackage)
      obtain ⟨rfl, rfl, hcode⟩ := hunit.code_of_append hfs hunit₁ hunit₂
      obtain ⟨chunks, hcode₁, hchunks⟩ :=
        hunit₁.exists_chunks (hu.withFunctions (by simp [hfs])).toInBounds
      obtain ⟨chunks', hcode₂, hchunks'⟩ :=
        hunit₂.exists_chunks (hu.withFunctions (by simp [hfs])).toInBounds
      refine ⟨_, chunks, chunks', hwhole, hchunks, hchunks', hunit.hasChunks hu.toInBounds ?_ ?_⟩
      · rw [registersWritten_assemble, hcode, hcode₂, List.flatten_append, List.map_flatten,
          ← hcode₁]
      · rw [hfs]
        exact List.rel_append hchunks.isChunk
          (List.forall₂_map_right_iff.mpr (hchunks'.isChunk.imp fun _ _ h => h.shift _))

/-- The last function of the small program, compiled alone, has the registers from zero on; behind
the other functions, which take nine registers, it has those from nine on. -/
theorem functions_compile_apart_counter :
    ∃ first second whole chunks chunks',
      (({} : Compiler).compile Counter.names (Counter.program.withFunctions
        (Counter.program.functions.take 2))).outcome = .ok first ∧
      (({} : Compiler).compile Counter.names (Counter.program.withFunctions
        (Counter.program.functions.drop 2))).outcome = .ok second ∧
      (({} : Compiler).compile Counter.names Counter.program).outcome = .ok whole ∧
      ({} : Compiler).HasChunks Counter.names (Counter.program.withFunctions
        (Counter.program.functions.take 2)) "main" first chunks ∧
      ({} : Compiler).HasChunks Counter.names (Counter.program.withFunctions
        (Counter.program.functions.drop 2)) "main" second chunks' ∧
      ({} : Compiler).HasChunks Counter.names Counter.program "main" whole
        (chunks ++ chunks'.map (·.map (Instr.shift 9))) := by
  have hregisters : (({} : Compiler).compile Counter.names (Counter.program.withFunctions
      (Counter.program.functions.take 2))).outcome.toOption.map
      (fun first => (registersWritten first.instrs).length) = some 9 := by decide +kernel
  have hsome : (({} : Compiler).compile Counter.names (Counter.program.withFunctions
      (Counter.program.functions.drop 2))).outcome.toOption.isSome = true := by decide +kernel
  have h := functions_compile_apart (c := {})
    (Counter.program_inBounds.wellFormed Counter.program_descending)
    (List.take_append_drop 2 Counter.program.functions).symm
  cases hfirst : (({} : Compiler).compile Counter.names (Counter.program.withFunctions
      (Counter.program.functions.take 2))).outcome with
  | error e =>
    rw [hfirst] at hregisters
    cases hregisters
  | ok first =>
    cases hsecond : (({} : Compiler).compile Counter.names (Counter.program.withFunctions
        (Counter.program.functions.drop 2))).outcome with
    | error e =>
      rw [hsecond] at hsome
      exact absurd hsome Bool.false_ne_true
    | ok second =>
      rw [hfirst] at hregisters
      have hnine : (registersWritten first.instrs).length = 9 := Option.some.inj hregisters
      rw [hfirst, hsecond] at h
      obtain ⟨package, hpackage, whole, chunks, chunks', hwhole, hchunks, hchunks', hboth⟩ := h
      obtain rfl : "main" = package := Option.some.inj hpackage
      rw [hnine] at hboth
      exact ⟨first, second, whole, chunks, chunks', rfl, rfl, hwhole, hchunks, hchunks', hboth⟩

end Compiler

end RegisterCode
