import RegisterCode.Source.NodeStore

/-!
# Source units

Modules after sections 3 and 10.2 of the specification (`SPEC_FULL.md`, "Module"). A source unit is
what is compiled at once: the variables and functions that one package declares, with the nodes of
the function bodies.

Out of scope: parsing. A unit is given as its nodes.
-/

namespace RegisterCode

/-- A variable of the package. -/
structure GlobalDecl where
  /-- Its name. -/
  name : Name
  /-- Where it is declared. -/
  span : Span
  deriving DecidableEq

/-- A function of the package. -/
structure FunctionDecl where
  /-- Its name. -/
  name : Name
  /-- The statement it runs; none if the function is defined elsewhere. -/
  body : Option StmtId
  /-- Where it is declared. -/
  span : Span
  deriving DecidableEq

/-- Whether the function is defined elsewhere. -/
def FunctionDecl.isDeclaration (f : FunctionDecl) : Bool := f.body.isNone

/-- The declarations of one package. -/
structure SourceUnit where
  /-- The name of the package. -/
  package : Name
  /-- Its variables, in source order. -/
  globals : List GlobalDecl := []
  /-- Its functions, in source order. -/
  functions : List FunctionDecl := []
  /-- The nodes of its function bodies. -/
  nodes : NodeStore := {}
  deriving DecidableEq

namespace SourceUnit

/-- The first function of this name. -/
def function? (u : SourceUnit) (name : Name) : Option FunctionDecl :=
  u.functions.find? (·.name = name)

/-- Add a variable behind the others. -/
def addGlobal (u : SourceUnit) (g : GlobalDecl) : SourceUnit :=
  { u with globals := u.globals ++ [g] }

/-- Add a function behind the others. -/
def addFunction (u : SourceUnit) (f : FunctionDecl) : SourceUnit :=
  { u with functions := u.functions ++ [f] }

end SourceUnit

end RegisterCode
