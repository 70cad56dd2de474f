import Mathlib.Data.List.Forall2
import RegisterCode.Code.Label
import RegisterCode.Naming.Table

/-!
# Names and labels

A table of names only grows (`Extends`), and a text has one name in it (`text_inj`). Labels can be
read back: within one package a slot determines the variable (`global_inj`), and the slot of a local
variable determines its name and its position (`localSlot_inj`): the digits behind the last `.pos.`
are the position, since a digit is no period.
-/

namespace RegisterCode

theorem InternTable.exists_text {t : InternTable} {n : Name} (h : n.index < t.size) :
    ∃ s, t.text? n = some s :=
  ⟨t.strings[n.index], List.getElem?_eq_getElem h⟩

namespace NameTable

/-- All names keep their texts. -/
def Extends (t t' : NameTable) : Prop := ∀ n s, t.text? n = some s → t'.text? n = some s

theorem Extends.refl (t : NameTable) : t.Extends t := fun _ _ h => h

theorem Extends.trans {t t' t'' : NameTable} (h : t.Extends t') (h' : t'.Extends t'') :
    t.Extends t'' := fun n s hn => h' n s (h n s hn)

/-- The text determines the name: it is the one that the map gives. -/
theorem text_inj {t : NameTable} {n n' : Name} {s : String} (hn : t.text? n = some s)
    (hn' : t.text? n' = some s) : n = n' := by
  have hi : t.number? s = some n.index := (t.inverse s n.index).mpr hn
  have hi' : t.number? s = some n'.index := (t.inverse s n'.index).mpr hn'
  cases n
  cases n'
  exact congrArg Name.mk (Option.some.inj (hi.symm.trans hi'))

theorem intern_extends (t : NameTable) (s : String) : t.Extends (t.intern s).2 := by
  intro n s' hn
  have hlt : n.index < t.strings.length := (List.getElem?_eq_some_iff.mp hn).1
  simp only [intern, InternTable.intern]
  split
  · exact hn
  · rw [InternTable.text?, InternTable.getElem?_push, if_neg (Nat.ne_of_lt hlt)]
    exact hn

/-- Interning several strings keeps what is there and names each of them. -/
theorem internAll_spec (t : NameTable) (ss : List String) :
    t.Extends (t.internAll ss).2 ∧
      List.Forall₂ (fun n s => (t.internAll ss).2.text? n = some s) (t.internAll ss).1 ss := by
  induction ss generalizing t with
  | nil => exact ⟨Extends.refl t, .nil⟩
  | cons s ss ih =>
    obtain ⟨hext, hall⟩ := ih (t.intern s).2
    have hs : (t.intern s).2.text? (t.intern s).1 = some s :=
      InternTable.lookup_eq_ok_iff.mp (lookup_intern t s)
    exact ⟨(intern_extends t s).trans hext, .cons (hext _ _ hs) hall⟩

end NameTable

/-! ## Labels -/

/-- A list that is split at the same element in two ways is split at one place, or one of the two
places lies behind the other. -/
theorem append_cons_eq_iff {α : Type} {sep : α} {p n p' n' : List α} :
    p ++ sep :: n = p' ++ sep :: n' ↔
      (p = p' ∧ n = n') ∨ (∃ mid, p' = p ++ sep :: mid ∧ n = mid ++ sep :: n') ∨
        ∃ mid, p = p' ++ sep :: mid ∧ n' = mid ++ sep :: n := by
  constructor
  · intro h
    rcases List.append_eq_append_iff.mp h with ⟨mid, hp, hmid⟩ | ⟨mid, hp, hmid⟩
    · cases mid with
      | nil =>
        rw [List.append_nil] at hp
        exact .inl ⟨hp.symm, (List.cons.inj hmid).2⟩
      | cons c mid =>
        obtain ⟨rfl, hn⟩ := List.cons.inj hmid
        exact .inr (.inl ⟨mid, hp, hn⟩)
    · cases mid with
      | nil =>
        rw [List.append_nil] at hp
        exact .inl ⟨hp, (List.cons.inj hmid).2.symm⟩
      | cons c mid =>
        obtain ⟨rfl, hn⟩ := List.cons.inj hmid
        exact .inr (.inr ⟨mid, hp, hn⟩)
  · rintro (⟨rfl, rfl⟩ | ⟨mid, rfl, rfl⟩ | ⟨mid, rfl, rfl⟩) <;> simp

namespace Mangling

variable {m : Mangling}

theorem global_inj {package s s' : String} (h : m.global package s = m.global package s') :
    s = s' := by
  simpa [global] using h

/-- A list of digits behind a period ends where the period stands. -/
theorem digits_append_inj {pre pre' ds ds' : List Char} (hds₁ : ∀ c ∈ ds, c.isDigit)
    (hds₂ : ∀ c ∈ ds', c.isDigit) (h : pre ++ '.' :: ds = pre' ++ '.' :: ds') :
    pre = pre' ∧ ds = ds' := by
  rcases append_cons_eq_iff.mp h with h | ⟨mid, -, rfl⟩ | ⟨mid, -, rfl⟩
  · exact h
  · exact absurd (hds₁ '.' (by simp)) (by decide)
  · exact absurd (hds₂ '.' (by simp)) (by decide)

theorem localSlot_inj {s s' : String} {p p' : Nat} (h : m.localSlot s p = m.localSlot s' p') :
    s = s' ∧ p = p' := by
  have hdigits : ∀ q : Nat, ∀ c ∈ (toString q).toList, c.isDigit := by
    intro q c hc
    rw [Nat.toString_eq_ofList_toDigits, String.toList_ofList] at hc
    exact Nat.isDigit_of_mem_toDigits (by decide) (by decide) hc
  have hsplit : ∀ (x : String) (q : Nat), (m.localSlot x q).text.toList =
      ("%local_".toList ++ x.toList ++ ['.', 'p', 'o', 's']) ++ '.' :: (toString q).toList := by
    intro x q
    have hpos : ".pos.".toList = ['.', 'p', 'o', 's', '.'] := by decide
    simp [localSlot, String.toList_append, hpos]
  have hl := congrArg (fun l => l.text.toList) h
  simp only [hsplit] at hl
  obtain ⟨hname, hpos⟩ := digits_append_inj (hdigits p) (hdigits p') hl
  refine ⟨String.toList_inj.mp (List.append_cancel_left (List.append_cancel_right hname)), ?_⟩
  have hnum := congrArg (fun ds => Nat.ofDigitChars 10 ds 0) hpos
  simpa [Nat.toString_eq_ofList_toDigits] using hnum

/-- No variable of a package shares its slot with a local variable. -/
theorem global_ne_localSlot {package s s' : String} {p : Nat} :
    m.global package s ≠ m.localSlot s' p := by
  intro h
  simp only [global, localSlot, Label.mk.injEq] at h
  have hl := congrArg (fun x => x.toList.head?) h
  simp [String.toList_append] at hl

end Mangling

end RegisterCode
