/-!
# Faults

A fault is a reference that leads nowhere, or an operation outside its domain: a name or node
number past the end of its table, a slice that does not fit, leaving the outermost scope. The
specification (`SPEC_FULL.md`) calls these programming errors. Faults are kept apart from
rejections, which are the compiler's answer to a source unit it does not accept.

Out of scope: faults for more than `2 ^ 32` strings, nodes, registers or open scopes. The tables and
counters of the model are unbounded.
-/

namespace RegisterCode

/-- The ways in which an operation can be asked for something that does not exist. -/
inductive Fault where
  /-- Entry `index` of a table with `size` entries. -/
  | indexOutOfBounds (size index : Nat)
  /-- A slice that starts behind the end of its table. -/
  | sliceStart (size start : Nat)
  /-- A slice that starts inside its table and ends behind it. -/
  | sliceEnd (size stop : Nat)
  /-- The universe scope cannot be left. -/
  | leftUniverse
  /-- A span that ends before it starts has no length. -/
  | negativeLength
  /-- A slice whose end is no 32-bit number has no text. -/
  | endTooLarge
  deriving DecidableEq

/-- The text of a fault. -/
def Fault.message : Fault → String
  | .indexOutOfBounds size index =>
    s!"index out of bounds: the len is {size} but the index is {index}"
  | .sliceStart size start => s!"range start index {start} out of range for slice of length {size}"
  | .sliceEnd size stop => s!"range end index {stop} out of range for slice of length {size}"
  | .leftUniverse => "ScopeChain::leave called on the Universe scope"
  | .negativeLength => "attempt to subtract with overflow"
  | .endTooLarge => "attempt to add with overflow"

end RegisterCode
