import RegisterCode.Lowering.Body

/-!
# Compiling source units

The driver after section 4.5 of the specification (`SPEC_FULL.md`), with the builtin functions of
its section 10.4 and the configuration of its section 10.5. A compiler is a choice of label scheme,
entry point and builtin functions. `Compiler.compile` turns a source unit into a listing, which
holds in this order: a comment that names the package, the declarations of the builtin functions,
one slot for each variable of the package, its functions, and, if this is the package in which the
program starts, the code that starts it.

Out of scope: checking the preamble and the start code, which are taken over as they are.
-/

namespace RegisterCode

/-- Where a program starts and how its labels begin. -/
structure Config where
  /-- The package in which the program starts. -/
  entryPackage : String := "main"
  /-- The function of that package with which it starts. -/
  entryFunction : String := "main"
  /-- What all labels of packages and builtin functions start with. -/
  labelTag : String := "ugo"
  deriving DecidableEq

/-- The functions that a program may call without defining them, and the text that goes with
them. -/
structure Builtins where
  /-- Text that declares the functions. -/
  preamble : String
  /-- Text that starts the program. -/
  trampoline : String
  /-- The names of the functions. -/
  functions : List String
  deriving DecidableEq

namespace Builtins

/-- Whether a function of this name may be called. -/
def contains (b : Builtins) (name : String) : Bool := b.functions.contains name

/-- Printing a number and ending the program. -/
def standard : Builtins where
  preamble := "declare i32 @ugo_builtin_println(i32)\ndeclare i32 @ugo_builtin_exit(i32)\n"
  trampoline :=
    "\ndefine i32 @main() \x7b\n\t%ret = call i32() @ugo_main_main()\n\tret i32 %ret\n\x7d\n"
  functions := ["println", "exit"]

end Builtins

/-- The choices that govern compilation. -/
structure Compiler where
  /-- Entry point and labels. -/
  config : Config := {}
  /-- What programs may call. -/
  builtins : Builtins := .standard
  deriving DecidableEq

/-- What a compilation leaves behind. -/
structure Run where
  /-- The listing, unless compilation failed. -/
  outcome : Except Failure Listing
  /-- The names, those of the builtin functions included. -/
  names : NameTable
  /-- What was reported, first to last. -/
  events : Array Event

namespace Lowering

/-- Emit the slots of the package's variables, the first of which has the number `index`. -/
def Context.lowerGlobals (ctx : Context) (package : String) :
    Nat → List GlobalDecl → LowerM Unit
  | _, [] => pure ()
  | index, g :: rest => do
    let name ← orFault (ctx.names.lookup g.name)
    let slot := ctx.mangling.global package name
    bindSymbol ⟨g.name, slot, .global index⟩
    emit (.global slot)
    lowerGlobals ctx package (index + 1) rest

/-- Emit a function, or its declaration if it is defined elsewhere. -/
def Context.lowerFunction (ctx : Context) (package : String) (f : FunctionDecl) : LowerM Unit := do
  let name ← orFault (ctx.names.lookup f.name)
  let label := ctx.mangling.function package name
  match f.body with
  | none =>
    report (.functionDeclared name)
    emit (.declare label)
  | some body =>
    report (.functionStarted name)
    inScope do
      emit (.define label)
      ctx.lowerStmt body
      emit .ret
      emit .close

end Lowering

namespace Compiler

/-- How the compiler makes labels. -/
def mangling (c : Compiler) : Mangling := ⟨c.config.labelTag⟩

/-- The symbols of the builtin functions, and the names with theirs added. -/
def builtinSymbols (c : Compiler) (names : NameTable) : List Symbol × NameTable :=
  let (ns, names) := names.internAll c.builtins.functions
  (List.zipWith (fun n s => ⟨n, c.mangling.builtin s, .builtin⟩) ns c.builtins.functions, names)

/-- Whether the program starts in this unit: it is the entry package and has the entry function,
with a body. -/
def isEntry (c : Compiler) (names : NameTable) (u : SourceUnit) : Bool :=
  names.text? u.package == some c.config.entryPackage &&
    u.functions.any fun f => f.body.isSome && names.text? f.name == some c.config.entryFunction

open Lowering in
/-- Emit the listing of a source unit. -/
def lowerUnit (c : Compiler) (ctx : Context) (package : String) (u : SourceUnit) : LowerM Unit := do
  enterScope
  emitVerbatim ("; package " ++ package ++ "\n")
  emitVerbatim c.builtins.preamble
  emitBlankLine
  ctx.lowerGlobals package 0 u.globals
  unless u.globals.isEmpty do
    emitBlankLine
  u.functions.forM (ctx.lowerFunction package)
  if c.isEntry ctx.names u then
    report (.trampolineAppended package)
    emitVerbatim c.builtins.trampoline

/-- Compile a source unit. -/
def compile (c : Compiler) (names : NameTable) (u : SourceUnit) : Run :=
  match names.lookup u.package with
  | .error f => ⟨.error (.fault f), names, #[]⟩
  | .ok package =>
    let (symbols, names) := c.builtinSymbols names
    let start : Lowering.State := {
      scopes := .ofUniverse symbols
      events := #[.unitStarted package u.globals.length u.functions.length] }
    match c.lowerUnit ⟨u.nodes, names, c.mangling⟩ package u start with
    | .ok _ s => ⟨.ok s.listing, names, s.events⟩
    | .error e s => ⟨.error e, names, s.events⟩

end Compiler

end RegisterCode
