import RegisterCode.Proofs.Sections

/-!
# Storage is made before it is used

Emitted code reads and writes slots. The slots of the package's variables exist from the start and
are shared by all functions; every other slot is made by an instruction of the function that uses
it, and gets its first value from the instruction behind that one. The reason is an invariant of
the translation: whatever a name stands for at some place of a body is shared, or was made and
given a value by the code before that place (`Housed`).

Results: `StmtsCode.handles_storage` (the invariant and what follows for the code of statements),
`Compiler.storage_discipline` (the same for the listing of a unit).
-/

namespace RegisterCode

/-- Whether the instruction reserves a slot of the package. -/
def Instr.isGlobal : Instr → Bool
  | .global _ => true
  | .declare _ | .define _ | .alloca _ | .store .. | .load .. | .binary .. | .call .. | .ret
  | .close => false

/-- The slot that an instruction reads or writes. -/
def Instr.slot? : Instr → Option Label
  | .load _ slot | .store _ slot => some slot
  | .global _ | .declare _ | .define _ | .alloca _ | .binary .. | .call .. | .ret | .close => none

theorem Instr.isStep_of_slot {i : Instr} {slot : Label} (h : i.slot? = some slot) :
    i.isStep = true := by
  cases i with
  | load | store => rfl
  | _ => exact absurd h (by simp [Instr.slot?])

/-- The slot is shared, or the code has made it and given it a value. -/
def Ready (shared : Label → Prop) (code : List Instr) (slot : Label) : Prop :=
  shared slot ∨ Instr.alloca slot ∈ code ∧ ∃ v, Instr.store v slot ∈ code

theorem Ready.append {shared : Label → Prop} {code : List Instr} {slot : Label}
    (h : Ready shared code slot) (code' : List Instr) : Ready shared (code ++ code') slot := by
  rcases h with h | ⟨hmade, v, hv⟩
  · exact Or.inl h
  · exact Or.inr ⟨List.mem_append_left _ hmade, v, List.mem_append_left _ hv⟩

/-- An instruction between `pre` and `post` only reads slots that are ready, only writes slots that
are there, and is followed by the first write to the slot it makes. -/
def HandlesStorage (shared : Label → Prop) (pre : List Instr) (i : Instr) (post : List Instr) :
    Prop :=
  match i with
  | .load _ slot => Ready shared pre slot
  | .store _ slot => shared slot ∨ Instr.alloca slot ∈ pre
  | .alloca slot => ∃ v rest, post = .store v slot :: rest
  | .global _ | .declare _ | .define _ | .binary .. | .call .. | .ret | .close => True

theorem HandlesStorage.append_post {shared : Label → Prop} {pre post : List Instr} {i : Instr}
    (h : HandlesStorage shared pre i post) (code : List Instr) :
    HandlesStorage shared pre i (post ++ code) := by
  cases i with
  | alloca slot =>
    obtain ⟨v, rest, rfl⟩ := h
    exact ⟨v, rest ++ code, rfl⟩
  | _ => exact h

/-- A slot that is read or written is there. -/
theorem HandlesStorage.slot_made {shared : Label → Prop} {pre post : List Instr} {i : Instr}
    {slot : Label} (h : HandlesStorage shared pre i post) (hslot : i.slot? = some slot) :
    shared slot ∨ Instr.alloca slot ∈ pre := by
  cases i with
  | load r slot' =>
    obtain rfl := Option.some.inj hslot
    exact h.imp id And.left
  | store v slot' =>
    obtain rfl := Option.some.inj hslot
    exact h
  | _ => exact absurd hslot (by simp [Instr.slot?])

/-- All that names stand for is ready. -/
def Housed (shared : Label → Prop) (code : List Instr) (ls : List Layer) : Prop :=
  ∀ l ∈ ls, ∀ n symbol, l n = some symbol → Ready shared code symbol.label

theorem Housed.append {shared : Label → Prop} {code : List Instr} {ls : List Layer}
    (h : Housed shared code ls) (code' : List Instr) : Housed shared (code ++ code') ls :=
  fun l hl n symbol hn => (h l hl n symbol hn).append code'

theorem Housed.enter {shared : Label → Prop} {code : List Instr} {ls : List Layer}
    (h : Housed shared code ls) : Housed shared code (Layer.empty :: ls) := by
  intro l hl n symbol hn
  rcases List.mem_cons.mp hl with rfl | hl
  · exact absurd hn (by simp)
  · exact h l hl n symbol hn

theorem Housed.find {shared : Label → Prop} {code : List Instr} {ls : List Layer}
    (h : Housed shared code ls) {n : Name} {symbol : Symbol}
    (hn : Layer.find ls n = some symbol) : Ready shared code symbol.label := by
  obtain ⟨l, hl, hln⟩ := Layer.mem_of_find hn
  exact h l hl n symbol hln

/-! ## The code of a tree -/

section Trees

variable {univ : Layer} {ls ls' : List Layer} {k k' : Nat} {code before : List Instr}
  {shared : Label → Prop}

/-- An expression reads what names stand for; nothing else in its code is about storage. -/
theorem ExprCode.handles_storage {t : ExprTree} {r : Nat} (h : ExprCode univ ls k t code r)
    (hh : Housed shared before ls) :
    EveryPoint (fun pre i post => HandlesStorage shared (before ++ pre) i post) code := by
  intro pre i post heq
  cases h.exprInstr i (by simp [heq]) with
  | load bound => exact (hh.find bound).append pre
  | binary => trivial
  | call => trivial

theorem InitCode.handles_storage {init : Option ExprTree} {v : Value}
    (h : InitCode univ ls k init code v k') (hh : Housed shared before ls) :
    EveryPoint (fun pre i post => HandlesStorage shared (before ++ pre) i post) code := by
  cases h with
  | zero => exact everyPoint_nil
  | expr value => exact value.handles_storage hh

end Trees

/-- Code whose instructions handle storage, behind `before`, and the code behind it. -/
theorem EveryPoint.append_handles {shared : Label → Prop} {before code code' : List Instr}
    (h : EveryPoint (fun pre i post => HandlesStorage shared (before ++ pre) i post) code)
    (h' : EveryPoint (fun pre i post => HandlesStorage shared (before ++ code ++ pre) i post)
      code') :
    EveryPoint (fun pre i post => HandlesStorage shared (before ++ pre) i post)
      (code ++ code') := by
  refine .append (h.imp fun pre i post hi => hi.append_post code') (h'.imp ?_)
  intro pre i post hi
  rwa [List.append_assoc] at hi

namespace StmtsCode

variable {m : Mangling} {names : NameTable} {univ : Layer} {ls ls' : List Layer} {k k' : Nat}
  {ts : List StmtTree} {code : List Instr}

/-- **Statements keep every name housed**, and their code handles storage as it should. -/
theorem handles_storage {shared : Label → Prop} {before : List Instr}
    (h : StmtsCode m names univ ls k ts code ls' k') (hh : Housed shared before ls) :
    EveryPoint (fun pre i post => HandlesStorage shared (before ++ pre) i post) code ∧
      Housed shared (before ++ code) ls' := by
  induction h generalizing before with
  | nil => exact ⟨everyPoint_nil, hh.append []⟩
  | @var l ls ls' k k₁ k' site n text init v rest code code' value named _ ih =>
    -- behind the initial value the slot is made and filled: from there on `n` is housed
    have hmade : Housed shared (before ++ (code ++ [.alloca (m.localSlot text site.span.start),
        .store v (m.localSlot text site.span.start)]))
        (l.bind ⟨n, m.localSlot text site.span.start, .declared site.id⟩ :: ls) := by
      intro l' hl' n' symbol hn'
      rcases List.mem_cons.mp hl' with rfl | hl'
      · rw [Layer.bind_apply] at hn'
        split at hn'
        · obtain rfl := Option.some.inj hn'
          exact Or.inr ⟨by simp, v, by simp⟩
        · exact (hh l List.mem_cons_self n' symbol hn').append _
      · exact (hh l' (List.mem_cons_of_mem l hl') n' symbol hn').append _
    obtain ⟨hpoints, hhoused⟩ := ih hmade
    refine ⟨((value.handles_storage hh).append_handles ?_).append_handles hpoints, ?_⟩
    · exact .cons ⟨v, [], rfl⟩ (.cons (Or.inr (by simp)) everyPoint_nil)
    · rwa [List.append_assoc] at hhoused
  | @assign ls ls' k a k' site n symbol t rest code code' bound value _ ih =>
    have hbound := (hh.find bound).append code
    obtain ⟨hpoints, hhoused⟩ := ih (hh.append (code ++ [.store (.reg ⟨a⟩) symbol.label]))
    refine ⟨((value.handles_storage hh).append_handles ?_).append_handles hpoints, ?_⟩
    · refine .cons ?_ everyPoint_nil
      rw [List.append_nil]
      exact hbound.imp id And.left
    · rwa [List.append_assoc] at hhoused
  | @block ls inner ls' k k₁ k' site body rest code code' _ _ ih ih' =>
    -- what the block declares is out of scope behind it, so only its instructions count
    obtain ⟨hbody, -⟩ := ih hh.enter
    obtain ⟨hpoints, hhoused⟩ := ih' (hh.append code)
    refine ⟨hbody.append_handles hpoints, ?_⟩
    rwa [List.append_assoc] at hhoused
  | @expr ls ls' k a k' site t rest code code' value _ ih =>
    obtain ⟨hpoints, hhoused⟩ := ih (hh.append code)
    refine ⟨(value.handles_storage hh).append_handles hpoints, ?_⟩
    rwa [List.append_assoc] at hhoused

/-- The slots that statements make carry the labels of local variables. -/
theorem exists_localSlot (h : StmtsCode m names univ ls k ts code ls' k') {slot : Label}
    (hslot : Instr.alloca slot ∈ code) : ∃ text pos, slot = m.localSlot text pos := by
  cases h.stmtInstr _ hslot with
  | expr he => cases he
  | alloca text position => exact ⟨text, position, rfl⟩

end StmtsCode

/-! ## The listing of a unit -/

/-- The code of functions reserves no slot of the package. -/
theorem FunctionsCode.global_not_mem {ctx : Lowering.Context} {package : String}
    {univ globals : Layer} {k k' : Nat} {fs : List FunctionDecl} {code : List Instr}
    (h : FunctionsCode ctx package univ globals k fs code k') (slot : Label) :
    Instr.global slot ∉ code := by
  induction h with
  | nil => simp
  | declared named bodyless _ ih =>
    rw [List.mem_cons, not_or]
    exact ⟨Instr.noConfusion, ih⟩
  | defined named hasBody unfolds within _ ih =>
    intro hmem
    simp only [List.mem_append, List.mem_cons, List.not_mem_nil, or_false, reduceCtorEq,
      false_or] at hmem
    rcases hmem with hmem | hmem
    · exact absurd (within.isStep _ hmem) Bool.false_ne_true
    · exact ih hmem

/-- The slots of the package: those that a listing reserves at its start. -/
def Listing.shared (listing : Listing) (slot : Label) : Prop :=
  Instr.global slot ∈ listing.instrs.takeWhile Instr.isGlobal

namespace Compiler

variable {c : Compiler} {names : NameTable} {u : SourceUnit} {package : String}
  {globals : List Symbol} {functions : List Instr} {k : Nat} {listing : Listing}

theorem shared_assemble {symbol : Symbol} (h : symbol ∈ globals) :
    (c.assemble names u package globals functions).shared symbol.label := by
  have hglobal : ∀ i ∈ globals.map fun s => Instr.global s.label, i.isGlobal = true := by
    intro i hi
    obtain ⟨s, -, rfl⟩ := List.mem_map.mp hi
    rfl
  rw [Listing.shared, instrs_assemble, List.takeWhile_append_of_pos hglobal]
  exact List.mem_append_left _ (List.mem_map.mpr ⟨symbol, h, rfl⟩)

/-- Where a function starts, names stand for the variables of the package. -/
theorem housed_globals (c : Compiler) (names : NameTable) (u : SourceUnit) (package : String)
    (globals : List Symbol) (functions : List Instr) :
    Housed (c.assemble names u package globals functions).shared []
      [Layer.empty, Layer.ofSymbols globals] := by
  refine Housed.enter fun l hl n symbol hn => ?_
  obtain rfl := List.mem_singleton.mp hl
  exact Or.inl (shared_assemble (Layer.ofSymbols_eq_some hn).1)

/-- Every function of a listing is the code of a body. -/
theorem UnitCode.of_mem_sections (h : c.UnitCode names u package globals functions k)
    {sec : Label × List Instr}
    (hsec : sec ∈ sections (c.assemble names u package globals functions).instrs) :
    ∃ t k₀ inner k₁, StmtsCode c.mangling (c.tableWithBuiltins names) (c.builtinLayer names)
      [Layer.empty, Layer.ofSymbols globals] k₀ [t] sec.2 inner k₁ := by
  rw [sections_assemble] at hsec
  have hall := h.functionsCode.sections_forall₂
  generalize u.functions.filter (·.body.isSome) = fs at hall
  generalize sections functions = secs at hall hsec
  induction hall with
  | nil => exact absurd hsec (by simp)
  | cons hhead _ ih =>
    rcases List.mem_cons.mp hsec with rfl | hsec
    · obtain ⟨text, body, t, k₀, inner, k₁, -, -, -, -, hcode⟩ := hhead
      exact ⟨t, k₀, inner, k₁, hcode⟩
    · exact ih hsec

/-- The slot of a local variable is none of the package. -/
theorem UnitCode.localSlot_not_global (h : c.UnitCode names u package globals functions k)
    {text : String} {pos : Nat} :
    Instr.global (c.mangling.localSlot text pos) ∉
      (c.assemble names u package globals functions).instrs := by
  rw [instrs_assemble, List.mem_append, not_or]
  refine ⟨fun hmem => ?_, h.functionsCode.global_not_mem _⟩
  obtain ⟨symbol, hsymbol, heq⟩ := List.mem_map.mp hmem
  obtain ⟨-, -, text', -, hlabel⟩ := mem_globalSymbols h.globalSymbols_eq hsymbol
  rw [hlabel] at heq
  exact Mangling.global_ne_localSlot (Instr.global.inj heq)

/-- What one instruction of a listing has to do with storage, seen from its function. -/
theorem UnitCode.handles_storage (h : c.UnitCode names u package globals functions k) :
    EveryPoint (fun pre i post => i.isStep = true → ∃ body post' rest,
        Within pre body ∧ post = post' ++ rest ∧
        HandlesStorage (c.assemble names u package globals functions).shared body i post')
      (c.assemble names u package globals functions).instrs := by
  refine h.point.imp fun pre i post hin hi => ?_
  obtain ⟨t, k₀, body, inner, k₁, pre', post', rest, hcode, hbody, hwithin, hpost⟩ := hin hi
  refine ⟨pre', post', rest, hwithin, hpost, ?_⟩
  exact (hcode.handles_storage
    (housed_globals c names u package globals functions)).1 pre' i post' hbody

/-- **Storage is closed, and filled before it is read.** A slot that is read or written is one of
the package or was made before in the same function. A slot that is read is one of the package, or
was also written before in the same function, since a slot is written as soon as it is made. And a
slot that some function makes is none of the package, and any function that reads or writes it
has made its own. -/
theorem storage_discipline (h : (c.compile names u).outcome = .ok listing) :
    (∀ pre i post, listing.instrs = pre ++ i :: post →
      (∀ slot, i.slot? = some slot → listing.shared slot ∨
        ∃ body, Within pre body ∧ Instr.alloca slot ∈ body) ∧
      (∀ r slot, i = .load r slot → listing.shared slot ∨
        ∃ body v, Within pre body ∧ Instr.alloca slot ∈ body ∧ Instr.store v slot ∈ body) ∧
      ∀ slot, i = .alloca slot → ∃ v rest, post = .store v slot :: rest) ∧
    ∀ own ∈ sections listing.instrs, ∀ slot, Instr.alloca slot ∈ own.2 →
      Instr.global slot ∉ listing.instrs ∧
      ∀ other ∈ sections listing.instrs, ∀ i ∈ other.2, i.slot? = some slot →
        Instr.alloca slot ∈ other.2 := by
  obtain ⟨package, globals, functions, k, hunit, rfl⟩ := compile_translates h
  constructor
  · intro pre i post heq
    refine ⟨fun slot hslot => ?_, ?_, ?_⟩
    · obtain ⟨body, _, _, hwithin, -, hhandles⟩ :=
        hunit.handles_storage pre i post heq (Instr.isStep_of_slot hslot)
      exact (hhandles.slot_made hslot).imp id fun hmade => ⟨body, hwithin, hmade⟩
    · rintro r slot rfl
      obtain ⟨body, _, _, hwithin, -, hready⟩ := hunit.handles_storage pre _ post heq rfl
      exact hready.imp id fun ⟨hmade, v, hfilled⟩ => ⟨body, v, hwithin, hmade, hfilled⟩
    · rintro slot rfl
      obtain ⟨_, _, rest', _, rfl, v, rest, rfl⟩ := hunit.handles_storage pre _ post heq rfl
      exact ⟨v, rest ++ rest', rfl⟩
  · intro own hown slot hmade
    obtain ⟨_, _, _, _, hcode⟩ := hunit.of_mem_sections hown
    obtain ⟨text, pos, rfl⟩ := hcode.exists_localSlot hmade
    refine ⟨hunit.localSlot_not_global, fun other hother i hi hslot => ?_⟩
    obtain ⟨_, _, _, _, hcode'⟩ := hunit.of_mem_sections hother
    obtain ⟨pre, post, heq⟩ := List.append_of_mem hi
    have hhandles := (hcode'.handles_storage
      (housed_globals c names u package globals functions)).1 pre i post heq
    rcases hhandles.slot_made hslot with hshared | hmade
    · exact absurd (List.takeWhile_subset _ hshared) hunit.localSlot_not_global
    · rw [heq]
      exact List.mem_append_left _ hmade

/-- The first function of the small program makes a slot for its variable, and the second one,
which makes none, does not reach it. -/
theorem storage_discipline_counter :
    ∃ listing own other, (({} : Compiler).compile Counter.names Counter.program).outcome =
        .ok listing ∧
      sections listing.instrs = [own, other] ∧ Instr.alloca ⟨"%local_x.pos.10"⟩ ∈ own.2 ∧
      Instr.global ⟨"%local_x.pos.10"⟩ ∉ listing.instrs ∧
      ∀ i ∈ other.2, i.slot? ≠ some ⟨"%local_x.pos.10"⟩ := by
  obtain ⟨listing, h⟩ := Counter.program_compiles
  have hmakes : (({} : Compiler).compile Counter.names Counter.program).outcome.toOption.map
      (fun listing => (sections listing.instrs).map fun sec =>
        decide (Instr.alloca ⟨"%local_x.pos.10"⟩ ∈ sec.2)) = some [true, false] := by
    decide +kernel
  rw [h] at hmakes
  obtain ⟨own, rest, hown, hmade, hrest⟩ := List.map_eq_cons_iff.mp (Option.some.inj hmakes)
  obtain ⟨other, rest, rfl, hunmade, hrest⟩ := List.map_eq_cons_iff.mp hrest
  obtain rfl := List.map_eq_nil_iff.mp hrest
  obtain ⟨-, hslots⟩ := storage_discipline h
  obtain ⟨hlocal, hothers⟩ := hslots own (by simp [hown]) _ (of_decide_eq_true hmade)
  refine ⟨listing, own, other, h, hown, of_decide_eq_true hmade, hlocal, ?_⟩
  intro i hi hslot
  exact of_decide_eq_false hunmade (hothers other (by simp [hown]) i hi hslot)

end Compiler

end RegisterCode
