import RegisterCode.Naming.Table

/-!
# Shared tables of names

Shared interners after section 10.2 of the specification (`SPEC_FULL.md`, "SharedInterner"). Several
users may hold handles on one table of names: what one of them interns, all the others see. A pool
keeps the tables and which handle stands for which table. Handle `0` exists from the start.

Out of scope: counting the handles on a table, and giving it up with the last of them.
-/

namespace RegisterCode

/-- Tables of names and the handles on them. -/
structure NamePool where
  /-- The tables, oldest first. -/
  tables : List InternTable
  /-- For every handle the position of its table. -/
  handles : List Nat
  deriving DecidableEq

namespace NamePool

/-- One new table with one handle. -/
def initial : NamePool := ⟨[.initial], [0]⟩

/-- The table a handle stands for. -/
def table? (p : NamePool) (handle : Nat) : Option InternTable :=
  p.handles[handle]?.bind (p.tables[·]?)

/-- Intern `s` in the table of `handle`. -/
def intern? (p : NamePool) (handle : Nat) (s : String) : Option (Name × NamePool) := do
  let slot ← p.handles[handle]?
  let t ← p.tables[slot]?
  let (n, t) := t.intern s
  return (n, { p with tables := p.tables.set slot t })

/-- A further handle on the table of `handle`. -/
def share? (p : NamePool) (handle : Nat) : Option (Nat × NamePool) := do
  let slot ← p.handles[handle]?
  return (p.handles.length, { p with handles := p.handles ++ [slot] })

/-- A handle on a new table. -/
def addTable (p : NamePool) : Nat × NamePool :=
  (p.handles.length, ⟨p.tables ++ [.initial], p.handles ++ [p.tables.length]⟩)

end NamePool

end RegisterCode
