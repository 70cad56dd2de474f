import RegisterCode.Proofs.Acceptance
import RegisterCode.Proofs.Linking
import RegisterCode.Proofs.Watching

/-!
# Calls and variables of the same name

A call stands for a builtin function, and the name of a builtin function may be that of a variable
too. Variables are bound in the scope of the package and in those of functions and blocks, but calls
look their function up in the universe, which no step of a compilation changes.

`Compiler.Outermost` says what the universe and the scope of the package bind. It holds when the
package's variables are bound, and from then on in every state, because the states keep both scopes
(`Watched.Follows`). The calls of a listing are then those of the functions' bodies, in the order in
which they are computed: arguments before the call, operands and statements from left to right
(`StmtTree.calls`).
-/

namespace RegisterCode

/-! ## The calls of a tree -/

mutual

/-- The calls in an expression: where they stand and the function they name. A call comes behind
those in its arguments. -/
def ExprTree.calls : ExprTree → List (Site ExprId × Name)
  | .ident .. | .int .. | .error _ => []
  | .binary _ _ left right => left.calls ++ right.calls
  | .unary _ _ operand => operand.calls
  | .paren _ inner => inner.calls
  | .call site f args => ExprTree.callsAll args ++ [(site, f)]

/-- The calls in several expressions, first to last. -/
def ExprTree.callsAll : List ExprTree → List (Site ExprId × Name)
  | [] => []
  | t :: ts => t.calls ++ ExprTree.callsAll ts

end

mutual

/-- The calls in a statement. -/
def StmtTree.calls : StmtTree → List (Site ExprId × Name)
  | .var _ _ init => init.elim [] ExprTree.calls
  | .assign _ _ value => value.calls
  | .block _ body => StmtTree.callsAll body
  | .expr _ value => value.calls
  | .error _ => []

/-- The calls in several statements, first to last. -/
def StmtTree.callsAll : List StmtTree → List (Site ExprId × Name)
  | [] => []
  | t :: ts => t.calls ++ StmtTree.callsAll ts

end

/-- The label is that of the function which the call names. -/
def Layer.IsCallee (univ : Layer) (label : Label) (call : Site ExprId × Name) : Prop :=
  ∃ symbol, univ call.2 = some symbol ∧ symbol.label = label

section Calls

variable {m : Mangling} {names : NameTable} {univ : Layer} {ls ls' : List Layer} {k k' r : Nat}
  {code : List Instr}

theorem ExprCode.callees {t : ExprTree} (h : ExprCode univ ls k t code r) :
    List.Forall₂ univ.IsCallee (code.filterMap Instr.callee?) t.calls := by
  induction h with
  | ident | int => exact .nil
  | binary _ _ _ ihl ihr =>
    rw [ExprTree.calls, List.filterMap_append, List.filterMap_append]
    exact (List.append_nil _).symm ▸ List.rel_append ihl ihr
  | neg _ ih =>
    rw [ExprTree.calls, List.filterMap_append]
    exact (List.append_nil _).symm ▸ ih
  | pos _ ih | paren _ ih => rwa [ExprTree.calls]
  | call builtin _ ih =>
    rw [ExprTree.calls, ExprTree.callsAll, ExprTree.callsAll, List.append_nil,
      List.filterMap_append]
    exact List.rel_append ih (.cons ⟨_, builtin, rfl⟩ .nil)

theorem InitCode.callees {init : Option ExprTree} {v : Value}
    (h : InitCode univ ls k init code v k') :
    List.Forall₂ univ.IsCallee (code.filterMap Instr.callee?) (init.elim [] ExprTree.calls) := by
  cases h with
  | zero => exact .nil
  | expr value => exact value.callees

/-- **Statements call what the names of their calls stand for in the universe, in order.** -/
theorem StmtsCode.callees {ts : List StmtTree} (h : StmtsCode m names univ ls k ts code ls' k') :
    List.Forall₂ univ.IsCallee (code.filterMap Instr.callee?) (StmtTree.callsAll ts) := by
  -- what a statement does behind its expressions calls nothing
  induction h with
  | nil => exact .nil
  | var value _ _ ih =>
    rw [StmtTree.callsAll, StmtTree.calls, List.filterMap_append, List.filterMap_append]
    exact List.rel_append ((List.append_nil _).symm ▸ value.callees) ih
  | assign _ value _ ih =>
    rw [StmtTree.callsAll, StmtTree.calls, List.filterMap_append, List.filterMap_append]
    exact List.rel_append ((List.append_nil _).symm ▸ value.callees) ih
  | block _ _ ihbody ih =>
    rw [StmtTree.callsAll, StmtTree.calls, List.filterMap_append]
    exact List.rel_append ihbody ih
  | expr value _ ih =>
    rw [StmtTree.callsAll, StmtTree.calls, List.filterMap_append]
    exact List.rel_append value.callees ih

/-- The same for the functions of a unit, one body behind the other. -/
theorem FunctionsCode.callees {ctx : Lowering.Context} {package : String} {globals : Layer}
    {fs : List FunctionDecl} (h : FunctionsCode ctx package univ globals k fs code k') :
    ∃ bodies, (fs.filterMap (·.body)).mapM ctx.nodes.stmtTree = some bodies ∧
      List.Forall₂ univ.IsCallee (code.filterMap Instr.callee?) (StmtTree.callsAll bodies) := by
  obtain ⟨bodies, chunks, hbodies, hchunks, hview⟩ := h.filterMap_eq
  refine ⟨bodies, hbodies, ?_⟩
  rw [hview (fun _ => rfl) (fun _ => rfl) rfl rfl]
  clear hbodies hview
  induction hchunks with
  | nil => exact .nil
  | cons hchunk _ ih =>
    obtain ⟨k₀, inner, k₁, hcode⟩ := hchunk
    have hown := hcode.callees
    rw [StmtTree.callsAll, StmtTree.callsAll, List.append_nil] at hown
    rw [List.flatMap_cons, StmtTree.callsAll]
    exact List.rel_append hown ih

end Calls

/-! ## The two outermost scopes -/

namespace Compiler

open Lowering

variable {c : Compiler} {names : NameTable} {u : SourceUnit}

/-- **In a well-formed unit the package's variables get bound.** -/
theorem exists_opened (c : Compiler) (hu : u.WellFormed names) :
    ∃ package symbols s, names.lookup u.package = .ok package ∧
      c.openUnit (c.context names u) package u (c.startState names u package) = .ok () s ∧
      globalSymbols c.mangling (c.tableWithBuiltins names) package 0 u.globals = some symbols ∧
      s.scopes.Shows [Layer.ofSymbols symbols] (c.builtinLayer names) := by
  obtain ⟨package, hp, -⟩ := NodeStore.exists_lookup (NameTable.Extends.refl names) hu.package
  have hjudges : Judges (fun n => (c.builtinLayer names n).isSome) names (c.context names u)
      (c.builtinLayer names) := judges hu fun _ _ => Iff.rfl
  have hstart : (c.startState names u package).scopes.Shows [] (c.builtinLayer names) :=
    ScopeChain.ofUniverse_shows fun s hs => (mem_builtinSymbols hs).choose_spec.2.2.2
  -- nothing but the slots of the variables can fail
  obtain ⟨s₁, hs₁, hopened⟩ : ∃ s₁ : State,
      s₁.scopes = (c.startState names u package).scopes.enter ∧
      c.openUnit (c.context names u) package u (c.startState names u package) =
        (c.context names u).lowerGlobals package 0 u.globals s₁ := ⟨_, rfl, rfl⟩
  have hjudged : Judged u.nodes names
      ((c.context names u).lowerGlobals package 0 u.globals) s₁ [] :=
    lowerGlobals_judged hjudges hu.globals
  obtain ⟨⟨⟩, s, hrun, -⟩ := hjudged
  have henter := hstart.enter
  rw [← hs₁] at henter
  obtain ⟨symbols, hsymbols, hshows, -, -⟩ := lowerGlobals_translates henter hrun
  exact ⟨package, symbols, s, hp, hopened.trans hrun, hsymbols, hshows⟩

/-- The calls of a listing, each with the builtin function that is called. -/
theorem UnitCode.callees {package : String} {globals : List Symbol} {functions : List Instr}
    {k : Nat} (h : c.UnitCode names u package globals functions k) :
    ∃ bodies, u.bodies = some bodies ∧
      List.Forall₂ (fun label call => ∃ f ∈ c.builtins.functions,
          (c.tableWithBuiltins names).text? call.2 = some f ∧ label = c.mangling.builtin f)
        ((c.assemble names u package globals functions).instrs.filterMap Instr.callee?)
        (StmtTree.callsAll bodies) := by
  obtain ⟨bodies, hbodies, hcallees⟩ := h.functionsCode.callees
  have hglobals : (globals.map fun s => Instr.global s.label).filterMap Instr.callee? = [] := by
    rw [List.filterMap_eq_nil_iff]
    intro i hi
    obtain ⟨s, -, rfl⟩ := List.mem_map.mp hi
    rfl
  refine ⟨bodies, hbodies, ?_⟩
  rw [instrs_assemble, List.filterMap_append, hglobals, List.nil_append]
  refine hcallees.imp fun label call hcall => ?_
  obtain ⟨symbol, hsymbol, rfl⟩ := hcall
  exact builtinLayer_eq_some hsymbol

end Compiler

namespace Counter

end Counter

end RegisterCode
