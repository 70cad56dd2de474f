/-!
# Labels

Name mangling after sections 6 and 10.3 of the specification (`SPEC_FULL.md`). Labels are the names
of storage slots and functions in emitted code. A mangling makes them from the names of the source:
labels of a package start with `@` and the mangling's tag, those of local variables start with
`%local_` and end in the position of their declaration.

Out of scope: which characters an assembler allows in a label. Names are taken over as they are.
-/

namespace RegisterCode

/-- The name of a slot or a function in emitted code. -/
structure Label where
  /-- The label as emitted. -/
  text : String
  deriving DecidableEq

/-- How source names become labels. -/
structure Mangling where
  /-- What all labels of packages and builtin functions start with, behind the `@`. -/
  tag : String
  deriving DecidableEq

namespace Mangling

/-- The slot of a variable of a package. -/
def global (m : Mangling) (package name : String) : Label :=
  ⟨"@" ++ m.tag ++ "_" ++ package ++ "_" ++ name⟩

/-- A function of a package. -/
def function (m : Mangling) (package name : String) : Label :=
  ⟨"@" ++ m.tag ++ "_" ++ package ++ "_" ++ name⟩

/-- A builtin function. -/
def builtin (m : Mangling) (name : String) : Label :=
  ⟨"@" ++ m.tag ++ "_builtin_" ++ name⟩

/-- The slot of the local variable that is declared at the given position. -/
def localSlot (_ : Mangling) (name : String) (position : Nat) : Label :=
  ⟨"%local_" ++ name ++ ".pos." ++ toString position⟩

end Mangling

end RegisterCode
