import RegisterCode.Proofs.Naming
import RegisterCode.Proofs.Translation

/-!
# The listing of a source unit

A listing is put together from the slots of the package's variables and the code of its functions
(`Compiler.assemble`). `FunctionsCode` says what the code of the functions is: each body is
translated on its own, with the variables of the package around it, and only the number of the
next register is handed on from one function to the next.

Results: `compile_translates` (a unit that compiles has a listing of this form), and what names
stand for outside functions: builtin functions (`builtinLayer_eq_some`) and the package's variables
(`mem_globalSymbols`).
-/

namespace RegisterCode

namespace Layer

/-- The layer that binds the given symbols, a later one in place of an earlier one. -/
def ofSymbols (symbols : List Symbol) : Layer := symbols.foldl bind empty

theorem foldl_bind_eq_some {symbols : List Symbol} {l : Layer} {n : Name} {s : Symbol}
    (h : symbols.foldl bind l n = some s) : (s ∈ symbols ∧ s.name = n) ∨ l n = some s := by
  induction symbols generalizing l with
  | nil => exact Or.inr h
  | cons a symbols ih =>
    rcases ih h with ⟨hs, hn⟩ | hl
    · exact Or.inl ⟨List.mem_cons_of_mem a hs, hn⟩
    · rw [bind_apply] at hl
      split at hl
      · next hn =>
        obtain rfl := Option.some.inj hl
        exact Or.inl ⟨List.mem_cons_self, hn⟩
      · exact Or.inr hl

theorem ofSymbols_eq_some {symbols : List Symbol} {n : Name} {s : Symbol}
    (h : ofSymbols symbols n = some s) : s ∈ symbols ∧ s.name = n := by
  rcases foldl_bind_eq_some h with h | h
  · exact h
  · exact absurd h (by simp)

theorem foldl_bind_isSome {symbols : List Symbol} {l : Layer} {n : Name}
    (h : (∃ s ∈ symbols, s.name = n) ∨ (l n).isSome) : (symbols.foldl bind l n).isSome := by
  induction symbols generalizing l with
  | nil =>
    rcases h with ⟨s, hs, -⟩ | h
    · exact absurd hs (by simp)
    · exact h
  | cons a symbols ih =>
    apply ih
    rw [bind_apply]
    rcases h with ⟨s, hs, hn⟩ | h
    · rcases List.mem_cons.mp hs with rfl | hs
      · exact Or.inr (by simp [hn])
      · exact Or.inl ⟨s, hs, hn⟩
    · right
      split
      · rfl
      · exact h

theorem ofSymbols_isSome {symbols : List Symbol} {s : Symbol} (h : s ∈ symbols) :
    (ofSymbols symbols s.name).isSome :=
  foldl_bind_isSome (Or.inl ⟨s, h, rfl⟩)

end Layer

/-! ## Builtin functions -/

namespace ScopeChain

theorem initial_linked : initial.Linked := by
  refine ⟨fun i f hf => ?_⟩
  cases i with
  | zero =>
    obtain rfl := Option.some.inj hf
    rfl
  | succ i => exact absurd hf (by simp [initial])

/-- A universe is a stack of one map. -/
theorem ofUniverse_layers (symbols : List Symbol) :
    (ofUniverse symbols).Linked ∧ (ofUniverse symbols).layers = [Layer.ofSymbols symbols] :=
  ⟨initial_linked.insertAll symbols, layers_insertAll rfl symbols⟩

/-- A chain of builtin functions shows no variables. -/
theorem ofUniverse_shows {symbols : List Symbol} (h : ∀ s ∈ symbols, s.isBuiltin = true) :
    (ofUniverse symbols).Shows [] (Layer.ofSymbols symbols) := by
  obtain ⟨hl, heq⟩ := ofUniverse_layers symbols
  refine ⟨hl, heq, fun l hl => absurd hl (by simp), fun n s hs => ?_⟩
  exact h s (Layer.ofSymbols_eq_some hs).1

end ScopeChain

namespace Compiler

/-- The names in use while a unit is compiled. -/
def tableWithBuiltins (c : Compiler) (names : NameTable) : NameTable := (c.builtinSymbols names).2

/-- What the names of builtin functions stand for. -/
def builtinLayer (c : Compiler) (names : NameTable) : Layer :=
  Layer.ofSymbols (c.builtinSymbols names).1

theorem tableWithBuiltins_extends (c : Compiler) (names : NameTable) :
    names.Extends (c.tableWithBuiltins names) :=
  (names.internAll_spec c.builtins.functions).1

theorem mem_zipWith_of_forall₂ {α β γ : Type} {R : α → β → Prop} {f : α → β → γ} {as : List α}
    {bs : List β} (h : List.Forall₂ R as bs) :
    (∀ c ∈ List.zipWith f as bs, ∃ a, ∃ b ∈ bs, R a b ∧ f a b = c) ∧
      ∀ b ∈ bs, ∃ a, R a b ∧ f a b ∈ List.zipWith f as bs := by
  induction h with
  | nil => exact ⟨by simp, by simp⟩
  | @cons a b as bs hab _ ih =>
    rw [List.zipWith_cons_cons]
    constructor
    · intro c hc
      rcases List.mem_cons.mp hc with rfl | hc
      · exact ⟨a, b, List.mem_cons_self, hab, rfl⟩
      · obtain ⟨a', b', hb', hr⟩ := ih.1 c hc
        exact ⟨a', b', List.mem_cons_of_mem b hb', hr⟩
    · intro b' hb'
      rcases List.mem_cons.mp hb' with rfl | hb'
      · exact ⟨a, hab, List.mem_cons_self⟩
      · obtain ⟨a', hr, hm⟩ := ih.2 b' hb'
        exact ⟨a', hr, List.mem_cons_of_mem _ hm⟩

/-- Every builtin symbol stands for one of the functions, under the function's label. -/
theorem mem_builtinSymbols {c : Compiler} {names : NameTable} {s : Symbol}
    (h : s ∈ (c.builtinSymbols names).1) :
    ∃ f ∈ c.builtins.functions, (c.tableWithBuiltins names).text? s.name = some f ∧
      s.label = c.mangling.builtin f ∧ s.isBuiltin = true := by
  have hall := (names.internAll_spec c.builtins.functions).2
  obtain ⟨n, f, hf, hn, rfl⟩ := (mem_zipWith_of_forall₂ hall).1 s h
  exact ⟨f, hf, hn, rfl, by simp [Symbol.isBuiltin]⟩

/-- What a name of a builtin function stands for. -/
theorem builtinLayer_eq_some {c : Compiler} {names : NameTable} {n : Name} {s : Symbol}
    (h : c.builtinLayer names n = some s) :
    ∃ f ∈ c.builtins.functions, (c.tableWithBuiltins names).text? n = some f ∧
      s.label = c.mangling.builtin f := by
  obtain ⟨hs, rfl⟩ := Layer.ofSymbols_eq_some h
  obtain ⟨f, hf, hn, hl, -⟩ := mem_builtinSymbols hs
  exact ⟨f, hf, hn, hl⟩

/-- The names that stand for builtin functions are those with the text of one. -/
theorem builtinLayer_isSome_iff {c : Compiler} {names : NameTable} {n : Name} :
    (c.builtinLayer names n).isSome ↔
      ∃ f ∈ c.builtins.functions, (c.tableWithBuiltins names).text? n = some f := by
  constructor
  · intro hn
    obtain ⟨s, hs⟩ := Option.isSome_iff_exists.mp hn
    obtain ⟨f, hf, hn, -⟩ := builtinLayer_eq_some hs
    exact ⟨f, hf, hn⟩
  · rintro ⟨f, hf, hn⟩
    have hall := (names.internAll_spec c.builtins.functions).2
    obtain ⟨n', hn', hmem⟩ := (mem_zipWith_of_forall₂ (f := fun n s =>
      (⟨n, c.mangling.builtin s, .builtin⟩ : Symbol)) hall).2 f hf
    obtain rfl := NameTable.text_inj hn' hn
    exact Layer.ofSymbols_isSome hmem

end Compiler

/-! ## Variables of the package -/

/-- The symbols of the package's variables, the first of which has the number `index`. -/
def globalSymbols (m : Mangling) (names : NameTable) (package : String) :
    Nat → List GlobalDecl → Option (List Symbol)
  | _, [] => some []
  | index, g :: rest => do
    let text ← names.text? g.name
    let symbols ← globalSymbols m names package (index + 1) rest
    return ⟨g.name, m.global package text, .global index⟩ :: symbols

section Globals

variable {m : Mangling} {names : NameTable} {package : String} {index : Nat}
  {gs : List GlobalDecl} {symbols : List Symbol}

theorem globalSymbols_cons {g : GlobalDecl} :
    globalSymbols m names package index (g :: gs) = some symbols ↔
      ∃ text symbols', names.text? g.name = some text ∧
        globalSymbols m names package (index + 1) gs = some symbols' ∧
        ⟨g.name, m.global package text, .global index⟩ :: symbols' = symbols := by
  simp [globalSymbols, Option.bind_eq_some_iff]

/-- A symbol of the package is a variable of it, under the variable's label. -/
theorem mem_globalSymbols (h : globalSymbols m names package index gs = some symbols) {s : Symbol}
    (hs : s ∈ symbols) :
    s.isBuiltin = false ∧ (∃ g ∈ gs, g.name = s.name) ∧
      ∃ text, names.text? s.name = some text ∧ s.label = m.global package text := by
  induction gs generalizing index symbols with
  | nil =>
    cases h
    exact absurd hs (by simp)
  | cons g gs ih =>
    obtain ⟨text, symbols', ht, hrest, rfl⟩ := globalSymbols_cons.mp h
    rcases List.mem_cons.mp hs with rfl | hs
    · exact ⟨by simp [Symbol.isBuiltin], ⟨g, List.mem_cons_self, rfl⟩, text, ht, rfl⟩
    · obtain ⟨hb, ⟨g', hg', hn⟩, htext⟩ := ih hrest hs
      exact ⟨hb, ⟨g', List.mem_cons_of_mem g hg', hn⟩, htext⟩

/-- Every variable of the package has a symbol. -/
theorem exists_mem_globalSymbols (h : globalSymbols m names package index gs = some symbols)
    {g : GlobalDecl} (hg : g ∈ gs) : ∃ s ∈ symbols, s.name = g.name := by
  induction gs generalizing index symbols with
  | nil => exact absurd hg (by simp)
  | cons g' gs ih =>
    obtain ⟨text, symbols', -, hrest, rfl⟩ := globalSymbols_cons.mp h
    rcases List.mem_cons.mp hg with rfl | hg
    · exact ⟨_, List.mem_cons_self, rfl⟩
    · obtain ⟨s, hs, hn⟩ := ih hrest hg
      exact ⟨s, List.mem_cons_of_mem _ hs, hn⟩

end Globals

namespace Lowering

variable {ctx : Context} {univ : Layer} {package : String}

/-- Emitting the package's variables emits their slots and binds their symbols. -/
theorem lowerGlobals_translates {l : Layer} {ls : List Layer} {index : Nat} {gs : List GlobalDecl}
    {s s' : State} (hs : s.scopes.Shows (l :: ls) univ)
    (h : ctx.lowerGlobals package index gs s = .ok () s') :
    ∃ symbols, globalSymbols ctx.mangling ctx.names package index gs = some symbols ∧
      s'.scopes.Shows (symbols.foldl Layer.bind l :: ls) univ ∧ s'.registers = s.registers ∧
      s'.listing = s.listing.append (symbols.map fun s => .global s.label) := by
  induction gs generalizing l index s with
  | nil =>
    obtain ⟨-, rfl⟩ := pure_eq_ok.mp h
    exact ⟨[], rfl, hs, rfl, by simp⟩
  | cons g gs ih =>
    rw [Context.lowerGlobals] at h
    obtain ⟨text, s₁, hread, h⟩ := bind_eq_ok.mp h
    obtain ⟨htext, rfl⟩ := orFault_eq_ok.mp hread
    obtain ⟨_, s₁, hbind, h⟩ := bind_eq_ok.mp h
    cases hbind
    obtain ⟨_, s₁, hemit, h⟩ := bind_eq_ok.mp h
    rw [emit_eq] at hemit
    cases hemit
    obtain ⟨symbols, hsymbols, hshows, hregs, hlisting⟩ :=
      ih (hs.insert (by simp [Symbol.isBuiltin])) h
    refine ⟨_, globalSymbols_cons.mpr ⟨text, symbols, InternTable.lookup_eq_ok_iff.mp htext,
      hsymbols, rfl⟩, hshows, hregs, ?_⟩
    rw [hlisting]
    simp [State.grow, Listing.append_append]

end Lowering

/-! ## Functions -/

/-- `FunctionsCode ctx package univ globals k fs code k'`: with `k` as next register the functions
`fs` have the code `code`, and the next register behind them is `k'`. -/
inductive FunctionsCode (ctx : Lowering.Context) (package : String) (univ globals : Layer) :
    Nat → List FunctionDecl → List Instr → Nat → Prop where
  | nil {k : Nat} : FunctionsCode ctx package univ globals k [] [] k
  | declared {k k' : Nat} {f : FunctionDecl} {text : String} {rest : List FunctionDecl}
      {code : List Instr} (named : ctx.names.text? f.name = some text) (bodyless : f.body = none)
      (next : FunctionsCode ctx package univ globals k rest code k') :
      FunctionsCode ctx package univ globals k (f :: rest)
        (.declare (ctx.mangling.function package text) :: code) k'
  | defined {k k₁ k' : Nat} {f : FunctionDecl} {text : String} {body : StmtId} {t : StmtTree}
      {inner : List Layer} {rest : List FunctionDecl} {code code' : List Instr}
      (named : ctx.names.text? f.name = some text) (hasBody : f.body = some body)
      (unfolds : ctx.nodes.stmtTree body = some t)
      (within : StmtsCode ctx.mangling ctx.names univ [Layer.empty, globals] k [t] code inner k₁)
      (next : FunctionsCode ctx package univ globals k₁ rest code' k') :
      FunctionsCode ctx package univ globals k (f :: rest)
        (.define (ctx.mangling.function package text) :: code ++ [.ret, .close] ++ code') k'

namespace Lowering

variable {ctx : Context} {univ globals : Layer} {package : String}

/-- One function, with its code in front of that of the others. -/
theorem lowerFunction_translates {f : FunctionDecl} {rest : List FunctionDecl} {s s' : State}
    (hs : s.scopes.Shows [globals] univ) (h : ctx.lowerFunction package f s = .ok () s') :
    s'.scopes.Shows [globals] univ ∧ ∃ code, s'.listing = s.listing.append code ∧
      ∀ {code' : List Instr} {k' : Nat},
        FunctionsCode ctx package univ globals s'.registers.allocated rest code' k' →
        FunctionsCode ctx package univ globals s.registers.allocated (f :: rest)
          (code ++ code') k' := by
  unfold Context.lowerFunction at h
  obtain ⟨text, s₁, hread, h⟩ := bind_eq_ok.mp h
  obtain ⟨htext, rfl⟩ := orFault_eq_ok.mp hread
  rw [InternTable.lookup_eq_ok_iff] at htext
  cases hb : f.body with
  | none =>
    simp only [hb] at h
    obtain ⟨_, s₁, hreport, h⟩ := bind_eq_ok.mp h
    cases hreport
    rw [emit_eq] at h
    cases h
    exact ⟨hs, _, rfl, fun hnext => .declared htext hb hnext⟩
  | some body =>
    simp only [hb] at h
    obtain ⟨_, s₁, hreport, h⟩ := bind_eq_ok.mp h
    cases hreport
    obtain ⟨s₁, c, hbody, hleave, rfl⟩ := inScope_eq_ok.mp h
    obtain ⟨_, s₂, hdefine, hbody⟩ := bind_eq_ok.mp hbody
    rw [emit_eq] at hdefine
    cases hdefine
    obtain ⟨_, s₂, hstmt, hbody⟩ := bind_eq_ok.mp hbody
    obtain ⟨t, ht, code, ls, hcode, hshows, hlisting⟩ := lowerStmt_translates hs.enter hstmt
    obtain ⟨_, s₃, hret, hclose⟩ := bind_eq_ok.mp hbody
    rw [emit_eq] at hret
    cases hret
    rw [emit_eq] at hclose
    cases hclose
    obtain ⟨l', rfl⟩ := hcode.outer_eq
    obtain ⟨c', hleave', hc'⟩ := hshows.leave
    rw [State.grow_scopes, State.grow_scopes, hleave'] at hleave
    cases hleave
    refine ⟨hc', Instr.define (ctx.mangling.function package text) :: code ++
      [Instr.ret, Instr.close], ?_, fun hnext => .defined htext hb ht hcode hnext⟩
    simp [State.grow, hlisting, Listing.append_append]

theorem lowerFunctions_translates {fs : List FunctionDecl} {s s' : State}
    (hs : s.scopes.Shows [globals] univ)
    (h : fs.forM (ctx.lowerFunction package) s = .ok () s') :
    ∃ code, s'.listing = s.listing.append code ∧
      FunctionsCode ctx package univ globals s.registers.allocated fs code
        s'.registers.allocated := by
  induction fs generalizing s with
  | nil =>
    obtain ⟨-, rfl⟩ := pure_eq_ok.mp h
    exact ⟨[], by simp, .nil⟩
  | cons f fs ih =>
    obtain ⟨_, s₁, hf, hfs⟩ := bind_eq_ok.mp h
    obtain ⟨hs₁, code, hlisting, hcons⟩ := lowerFunction_translates hs hf
    obtain ⟨code', hlisting', hcode'⟩ := ih hs₁ hfs
    exact ⟨code ++ code', by rw [hlisting', hlisting, Listing.append_append], hcons hcode'⟩

end Lowering

/-! ## Source units -/

namespace Compiler

/-- What stays the same while a unit is compiled. -/
def context (c : Compiler) (names : NameTable) (u : SourceUnit) : Lowering.Context :=
  ⟨u.nodes, c.tableWithBuiltins names, c.mangling⟩

/-- The listing of a unit, put together from its parts. -/
def assemble (c : Compiler) (names : NameTable) (u : SourceUnit) (package : String)
    (globals : List Symbol) (functions : List Instr) : Listing :=
  let head := ((Listing.empty.verbatim ("; package " ++ package ++ "\n")).verbatim
    c.builtins.preamble).blankLine.append (globals.map fun s => .global s.label)
  let head := if u.globals.isEmpty then head else head.blankLine
  if c.isEntry (c.tableWithBuiltins names) u then
    (head.append functions).verbatim c.builtins.trampoline
  else head.append functions

theorem instrs_assemble (c : Compiler) (names : NameTable) (u : SourceUnit) (package : String)
    (globals : List Symbol) (functions : List Instr) :
    (c.assemble names u package globals functions).instrs =
      globals.map (fun s => .global s.label) ++ functions := by
  have hempty : Listing.empty.instrs = [] := rfl
  unfold assemble
  cases u.globals.isEmpty <;> cases c.isEntry (c.tableWithBuiltins names) u <;>
    simp [Listing.blankLine, hempty]

/-- The parts of a unit's listing: the symbols of the package's variables and the code of the
functions, which uses the registers below `k`. -/
structure UnitCode (c : Compiler) (names : NameTable) (u : SourceUnit) (package : String)
    (globals : List Symbol) (functions : List Instr) (k : Nat) : Prop where
  packageText : names.text? u.package = some package
  globalSymbols_eq : globalSymbols c.mangling (c.tableWithBuiltins names) package 0 u.globals =
    some globals
  functionsCode : FunctionsCode (c.context names u) package (c.builtinLayer names)
    (Layer.ofSymbols globals) 0 u.functions functions k

open Lowering in
/-- The functions of a unit, and the code that starts the program. -/
theorem lowerEntry_translates {c : Compiler} {ctx : Context} {u : SourceUnit} {package : String}
    {globals univ : Layer} {s s' : State} (hs : s.scopes.Shows [globals] univ)
    (h : (u.functions.forM (ctx.lowerFunction package) >>= fun _ =>
      if c.isEntry ctx.names u then do
        report (.trampolineAppended package)
        emitVerbatim c.builtins.trampoline
      else pure ()) s = .ok () s') :
    ∃ code, FunctionsCode ctx package univ globals s.registers.allocated u.functions code
        s'.registers.allocated ∧
      s'.listing = if c.isEntry ctx.names u then
        (s.listing.append code).verbatim c.builtins.trampoline else s.listing.append code := by
  obtain ⟨_, s₁, hfunctions, h⟩ := bind_eq_ok.mp h
  obtain ⟨code, hlisting, hcode⟩ := lowerFunctions_translates hs hfunctions
  cases hentry : c.isEntry ctx.names u with
  | true =>
    simp only [hentry, if_true] at h
    obtain ⟨_, s₂, hreport, h⟩ := bind_eq_ok.mp h
    cases hreport
    cases h
    refine ⟨code, hcode, ?_⟩
    rw [if_pos rfl, ← hlisting]
  | false =>
    simp only [hentry, Bool.false_eq_true, if_false] at h
    obtain ⟨-, rfl⟩ := pure_eq_ok.mp h
    refine ⟨code, hcode, ?_⟩
    rw [if_neg (by simp), ← hlisting]

open Lowering in
/-- Lowering a unit puts its listing together. -/
theorem lowerUnit_translates {c : Compiler} {names : NameTable} {u : SourceUnit} {package : String}
    {s s' : State} (hs : s.scopes.Shows [] (c.builtinLayer names))
    (h : c.lowerUnit (c.context names u) package u s = .ok () s') :
    ∃ globals functions,
      globalSymbols c.mangling (c.tableWithBuiltins names) package 0 u.globals = some globals ∧
      FunctionsCode (c.context names u) package (c.builtinLayer names) (Layer.ofSymbols globals)
        s.registers.allocated u.functions functions s'.registers.allocated ∧
      (s.listing = Listing.empty →
        s'.listing = c.assemble names u package globals functions) := by
  unfold lowerUnit at h
  obtain ⟨_, s₁, henter, h⟩ := bind_eq_ok.mp h
  cases henter
  obtain ⟨_, s₁, hheader, h⟩ := bind_eq_ok.mp h
  cases hheader
  obtain ⟨_, s₁, hpreamble, h⟩ := bind_eq_ok.mp h
  cases hpreamble
  obtain ⟨_, s₁, hblank, h⟩ := bind_eq_ok.mp h
  cases hblank
  obtain ⟨_, s₁, hglobals, h⟩ := bind_eq_ok.mp h
  obtain ⟨globals, hsymbols, hshows, hregs, hlisting⟩ := lowerGlobals_translates hs.enter hglobals
  have hhead : s.listing = Listing.empty → s₁.listing =
      ((Listing.empty.verbatim ("; package " ++ package ++ "\n")).verbatim
        c.builtins.preamble).blankLine.append (globals.map fun s => .global s.label) := by
    intro hstart
    rw [hlisting, ← hstart]
  cases hempty : u.globals.isEmpty with
  | true =>
    simp only [hempty, if_true] at h
    obtain ⟨code, hcode, hlisting'⟩ := lowerEntry_translates hshows h
    refine ⟨globals, code, hsymbols, hregs ▸ hcode, fun hstart => ?_⟩
    rw [hlisting', hhead hstart, assemble, hempty]
    rfl
  | false =>
    simp only [hempty, Bool.false_eq_true, if_false] at h
    obtain ⟨_, s₂, hblank, h⟩ := bind_eq_ok.mp h
    cases hblank
    obtain ⟨code, hcode, hlisting'⟩ := lowerEntry_translates
      (s := { s₁ with listing := s₁.listing.blankLine }) hshows h
    refine ⟨globals, code, hsymbols, hregs ▸ hcode, fun hstart => ?_⟩
    rw [hlisting', hhead hstart, assemble, hempty]
    rfl

/-- **A unit that compiles has the listing of its parts.** -/
theorem compile_translates {c : Compiler} {names : NameTable} {u : SourceUnit} {listing : Listing}
    (h : (c.compile names u).outcome = .ok listing) :
    ∃ package globals functions k, c.UnitCode names u package globals functions k ∧
      listing = c.assemble names u package globals functions := by
  unfold compile at h
  cases hp : names.lookup u.package with
  | error f => simp [hp] at h
  | ok package =>
    simp only [hp] at h
    split at h
    · next s' hrun =>
      obtain rfl := Except.ok.inj h
      obtain ⟨globals, functions, hglobals, hfunctions, hlisting⟩ := lowerUnit_translates
        (ScopeChain.ofUniverse_shows fun s hs => (mem_builtinSymbols hs).choose_spec.2.2.2) hrun
      exact ⟨package, globals, functions, _, ⟨InternTable.lookup_eq_ok_iff.mp hp, hglobals,
        hfunctions⟩, hlisting rfl⟩
    · exact absurd h (by simp)

end Compiler

/-- A result that passes a check is a result. -/
theorem exists_ok_of_any {ε α : Type} {x : Except ε α} {p : α → Bool}
    (h : x.toOption.any p = true) : ∃ a, x = .ok a ∧ p a = true := by
  cases x with
  | ok a => exact ⟨a, rfl, h⟩
  | error e => exact absurd h Bool.false_ne_true

/-- The small program is accepted. -/
theorem Counter.program_compiles :
    ∃ listing, (({} : Compiler).compile Counter.names Counter.program).outcome = .ok listing := by
  have hrun : (({} : Compiler).compile Counter.names
      Counter.program).outcome.toOption.any (fun _ => true) = true := by decide +kernel
  obtain ⟨listing, h, -⟩ := exists_ok_of_any hrun
  exact ⟨listing, h⟩

end RegisterCode
