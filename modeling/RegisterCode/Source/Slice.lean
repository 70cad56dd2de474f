import RegisterCode.Fault

/-!
# Stored lists

The ranges of section 10.2 of the specification (`SPEC_FULL.md`, "ExprArena"), by which nodes refer
to lists. Lists of varying length are kept one behind the other in a single table. A slice says
where such a list starts and how long it is. A slice may come from elsewhere, so it is checked
against the table when it is read; the list that was stored is what its slice reads (`read_store`).

Out of scope: the limit of `2 ^ 32` entries of a table. Only the form in which a slice is shown
depends on the width of 32 bits (`dump`).
-/

namespace RegisterCode

/-- Where a list of `α` is kept in the table of all such lists. -/
structure Slice (α : Type) where
  /-- Position of the first element. -/
  start : Nat
  /-- Number of elements. -/
  length : Nat
  deriving DecidableEq

namespace Slice

variable {α : Type}

/-- The slice of an empty list at the start of the table. -/
def empty : Slice α := ⟨0, 0⟩

/-- Whether the slice has no elements. -/
def isEmpty (s : Slice α) : Bool := s.length == 0

/-- Append `items` to the table; the slice says where they are. -/
def store (table : Array α) (items : List α) : Slice α × Array α :=
  (⟨table.size, items.length⟩, table ++ items)

/-- The elements of a slice, which has to lie inside the table. -/
def read (s : Slice α) (table : Array α) : Except Fault (List α) :=
  if table.size < s.start then .error (.sliceStart table.size s.start)
  else if table.size < s.start + s.length then .error (.sliceEnd table.size (s.start + s.length))
  else .ok (table.extract s.start (s.start + s.length)).toList

/-- The form in which a slice is shown inside a node; its end has to be a 32-bit number. -/
def dump (s : Slice α) (title : String) : Except Fault String :=
  if s.start + s.length ≤ 4294967295 then .ok s!"{title}({s.start}..{s.start + s.length})"
  else .error .endTooLarge

/-! ## Lemmas -/

theorem size_append_list (table : Array α) (items : List α) :
    (table ++ items).size = table.size + items.length := by
  rw [← Array.length_toList, Array.toList_appendList, List.length_append, Array.length_toList]

/-- A slice reads the list that was stored under it. -/
theorem read_store (table : Array α) (items : List α) :
    (store table items).1.read (store table items).2 = .ok items := by
  have h := size_append_list table items
  simp [store, read, h]

end Slice

end RegisterCode
