import RegisterCode.Fault

/-!
# Names

Interning after section 10.2 of the specification (`SPEC_FULL.md`, "Name / StringInterner").
Identifiers are kept once, in a table, and referred to by their number there. Entry `0` is always
the empty string.

A table is kept in two directions. Interning a string asks the map from strings to numbers, and
appends the string to both if the map does not hold it; looking a name up asks the list of strings.
The two answers fit because map and list are inverse to each other (`InternTable.Inverse`), which
interning keeps (`Inverse.intern`). A `NameTable` is a table that comes with this fact, so that no
entry is ever changed or moved and a name keeps its text for as long as the table lives
(`lookup_intern`).

Out of scope: hashing (the map is a list of pairs, of which the first for a string counts), the lock
around the table, and the limit of `2 ^ 32` strings: numbers are unbounded.
-/

namespace RegisterCode

/-- An identifier, as its number in a table of names. -/
structure Name where
  /-- Position in the table. -/
  index : Nat
  deriving DecidableEq

namespace Name

/-- The name of the empty string. -/
def empty : Name := ⟨0⟩

/-- Names are ordered by their numbers, that is by when they were first interned. -/
instance : Ord Name := ⟨fun a b => compare a.index b.index⟩

/-- The form in which a name is shown inside a node. -/
def dump (n : Name) : String := s!"Name({n.index})"

end Name

/-- The strings interned so far, with their numbers. -/
structure InternTable where
  /-- From strings to numbers. Of several pairs for a string the first counts. -/
  numbers : List (String × Nat)
  /-- From numbers to strings: a number is a position in this list. -/
  strings : List String
  deriving DecidableEq

namespace InternTable

/-- A new table: only the empty string is interned. -/
def initial : InternTable := ⟨[("", 0)], [""]⟩

/-- Number of interned strings, the empty one included. -/
def size (t : InternTable) : Nat := t.strings.length

/-- Whether the table has no entry. -/
def isEmpty (t : InternTable) : Bool := t.strings.isEmpty

/-- The number of a string, if it is interned. -/
def number? (t : InternTable) (s : String) : Option Nat := t.numbers.lookup s

/-- Enter a string under the next number, in both directions. -/
def push (t : InternTable) (s : String) : InternTable :=
  ⟨(s, t.strings.length) :: t.numbers, t.strings ++ [s]⟩

/-- The name of `s`, which is entered if the map does not hold it yet. -/
def intern (t : InternTable) (s : String) : Name × InternTable :=
  match t.number? s with
  | some i => (⟨i⟩, t)
  | none => (⟨t.strings.length⟩, t.push s)

/-- Intern several strings, first to last. -/
def internAll (t : InternTable) : List String → List Name × InternTable
  | [] => ([], t)
  | s :: rest =>
    let (n, t) := t.intern s
    let (ns, t) := t.internAll rest
    (n :: ns, t)

/-- The text of a name, if the table holds it. -/
def text? (t : InternTable) (n : Name) : Option String := t.strings[n.index]?

/-- The text of a name; a name from elsewhere may be out of bounds. -/
def lookup (t : InternTable) (n : Name) : Except Fault String :=
  match t.text? n with
  | some s => .ok s
  | none => .error (.indexOutOfBounds t.size n.index)

/-- Map and list are inverse to each other: the map gives a string the number at which the list
holds it. -/
def Inverse (t : InternTable) : Prop := ∀ s i, t.number? s = some i ↔ t.strings[i]? = some s

/-! ## Lemmas -/

variable {t : InternTable} {s : String} {n : Name}

theorem lookup_eq_ok_iff : t.lookup n = .ok s ↔ t.text? n = some s := by
  unfold lookup
  split <;> simp_all

theorem number?_push (t : InternTable) (s s' : String) :
    (t.push s).number? s' = if s' = s then some t.strings.length else t.number? s' := by
  unfold number? push
  rw [List.lookup_cons]
  by_cases h : s' = s
  · simp [h]
  · simp [h, beq_false_of_ne h]

theorem getElem?_push (t : InternTable) (s : String) (i : Nat) :
    (t.push s).strings[i]? = if i = t.strings.length then some s else t.strings[i]? := by
  unfold push
  by_cases h : i = t.strings.length
  · simp [h]
  · rw [if_neg h, List.getElem?_append]
    split
    · rfl
    · rw [List.getElem?_eq_none (by simp; omega), List.getElem?_eq_none (by omega)]

/-- **A string that is entered where the map does not hold it leaves map and list inverse.** -/
theorem Inverse.push (h : t.Inverse) (hs : t.number? s = none) : (t.push s).Inverse := by
  intro s' i
  rw [number?_push, getElem?_push]
  by_cases hi : i = t.strings.length
  · -- no other string has the next number
    have hnext : t.number? s' ≠ some i := by
      rw [ne_eq, h s' i, hi]
      simp
    by_cases hs' : s' = s
    · simp [hs', hi]
    · simp [hs', hi, hi ▸ hnext, Ne.symm hs']
  · -- no other number belongs to the new string
    have hnew : t.strings[i]? ≠ some s := by
      rw [ne_eq, ← h s i, hs]
      simp
    by_cases hs' : s' = s
    · simp [hs', hi, hnew, Ne.symm hi]
    · rw [if_neg hs', if_neg hi]
      exact h s' i

theorem initial_inverse : initial.Inverse := by
  have hempty : (⟨[], []⟩ : InternTable).Inverse := by simp [Inverse, number?]
  exact hempty.push (s := "") rfl

/-- **Interning keeps map and list inverse.** -/
theorem Inverse.intern (h : t.Inverse) (s : String) : (t.intern s).2.Inverse := by
  unfold InternTable.intern
  split
  · exact h
  · next hs => exact h.push hs

theorem Inverse.internAll (h : t.Inverse) (ss : List String) : (t.internAll ss).2.Inverse := by
  induction ss generalizing t with
  | nil => exact h
  | cons s ss ih => exact ih (h.intern s)

/-- Interning yields a name of the interned text. -/
theorem Inverse.lookup_intern (h : t.Inverse) (s : String) :
    (t.intern s).2.lookup (t.intern s).1 = .ok s := by
  rw [lookup_eq_ok_iff, text?, InternTable.intern]
  split
  · next i hi => exact (h s i).mp hi
  · simp [InternTable.push]

end InternTable

/-- A table whose map and list are inverse to each other. -/
structure NameTable extends InternTable where
  inverse : toInternTable.Inverse
  deriving DecidableEq

namespace NameTable

/-- A new table: only the empty string is interned. -/
def initial : NameTable := ⟨.initial, InternTable.initial_inverse⟩

/-- The name of `s`, which is entered if the table does not hold it yet. -/
def intern (t : NameTable) (s : String) : Name × NameTable :=
  let r := t.toInternTable.intern s
  (r.1, ⟨r.2, t.inverse.intern s⟩)

/-- Intern several strings, first to last. -/
def internAll (t : NameTable) (ss : List String) : List Name × NameTable :=
  let r := t.toInternTable.internAll ss
  (r.1, ⟨r.2, t.inverse.internAll ss⟩)

/-- Interning yields a name of the interned text. -/
theorem lookup_intern (t : NameTable) (s : String) :
    (t.intern s).2.lookup (t.intern s).1 = .ok s :=
  t.inverse.lookup_intern s

end NameTable

end RegisterCode
