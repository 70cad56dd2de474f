import RegisterCode.Code.Instr

/-!
# Listings

The output of section 6 of the specification (`SPEC_FULL.md`). A listing is emitted code:
instructions, one to a line, and between them passages of text that are taken over as they are.

Results: the text of a listing grows at its end only (`text_instr`, `text_verbatim`).

Out of scope: assembling the text.
-/

namespace RegisterCode

/-- A part of a listing. -/
inductive Passage where
  /-- An instruction on a line of its own. -/
  | instr (i : Instr)
  /-- Text that is taken over as it is. -/
  | verbatim (s : String)
  deriving DecidableEq

/-- The text of a part of a listing. -/
def Passage.text : Passage → String
  | .instr i => i.line
  | .verbatim s => s

/-- Emitted code. -/
structure Listing where
  /-- Its parts, first to last. -/
  passages : Array Passage := #[]
  deriving DecidableEq

namespace Listing

/-- A listing without parts. -/
def empty : Listing := {}

/-- Append an instruction. -/
def instr (l : Listing) (i : Instr) : Listing := ⟨l.passages.push (.instr i)⟩

/-- Append text. -/
def verbatim (l : Listing) (s : String) : Listing := ⟨l.passages.push (.verbatim s)⟩

/-- Append an empty line. -/
def blankLine (l : Listing) : Listing := l.verbatim "\n"

/-- The whole text. -/
def text (l : Listing) : String := l.passages.foldl (fun s p => s ++ p.text) ""

/-- The instructions of the listing. -/
def instrs (l : Listing) : List Instr :=
  l.passages.toList.filterMap fun
    | .instr i => some i
    | .verbatim _ => none

/-! ## Lemmas -/

@[simp]
theorem text_empty : empty.text = "" := rfl

@[simp]
theorem text_instr (l : Listing) (i : Instr) : (l.instr i).text = l.text ++ i.line := by
  simp [text, instr, Passage.text]

@[simp]
theorem text_verbatim (l : Listing) (s : String) : (l.verbatim s).text = l.text ++ s := by
  simp [text, verbatim, Passage.text]

@[simp]
theorem instrs_instr (l : Listing) (i : Instr) : (l.instr i).instrs = l.instrs ++ [i] := by
  simp [instrs, instr]

@[simp]
theorem instrs_verbatim (l : Listing) (s : String) : (l.verbatim s).instrs = l.instrs := by
  simp [instrs, verbatim]

end Listing

end RegisterCode
