import RegisterCode.Proofs.Independence

/-!
# Calls and their declarations

What a listing calls is declared by the runtime, whose texts are fixed, while the labels begin as
the configuration says. The calls of a listing therefore have the labels that the standard runtime
declares only if those begin with `ugo`; and the code that starts a program calls `main` of the
package `main`, whatever the entry point is.

Results: a listing calls builtin functions only (`Compiler.UnitCode.callee_builtin`), which the
standard preamble declares under one tag of labels (`Mangling.builtin_mem_declared_iff`); labels
whose parts hold no underscore are labels of one function (`Mangling.function_eq_iff_of_plain`); and
the listings that the standard runtime goes with (`Compiler.standard_runtime_links`).

Out of scope: runtimes other than the standard one, whose texts say what they like.
-/

namespace RegisterCode

/-! ## Labels in the texts of a runtime -/

/-- The labels that stand between the two texts on a line of their own. -/
def labelsBetween (before after text : String) : List Label :=
  (List.splitOn '\n' text.toList).filterMap fun line =>
    ((line.dropPrefix? before.toList).bind (·.dropSuffix? after.toList)).map fun label =>
      ⟨String.ofList label⟩

/-- The functions of one argument that a text declares. -/
def declared (text : String) : List Label := labelsBetween "declare i32 " "(i32)" text

/-- The functions that a text calls without arguments. -/
def started (text : String) : List Label := labelsBetween "\t%ret = call i32() " "()" text

namespace Builtins

theorem declared_standard :
    declared standard.preamble = [⟨"@ugo_builtin_println"⟩, ⟨"@ugo_builtin_exit"⟩] := by
  decide +kernel

theorem started_standard : started standard.trampoline = [⟨"@ugo_main_main"⟩] := by
  decide +kernel

end Builtins

namespace Mangling

theorem eq_of_tag_eq {m m' : Mangling} (h : m.tag = m'.tag) : m = m' := by
  cases m
  cases m'
  exact congrArg _ h

/-- The label of a builtin function shows the tag. -/
theorem tag_of_builtin_eq {m m' : Mangling} {name : String} (h : m.builtin name = m'.builtin name) :
    m.tag = m'.tag := by
  have htext := congrArg (·.text.toList) h
  simp only [builtin, String.toList_append, List.append_cancel_right_eq,
    List.append_cancel_left_eq] at htext
  exact String.toList_inj.mp htext

/-- The label of a standard builtin function shows its name. -/
theorem name_of_builtin_eq {m m' : Mangling} {name name' : String}
    (h : name ∈ Builtins.standard.functions) (h' : name' ∈ Builtins.standard.functions)
    (heq : m.builtin name = m'.builtin name') : name = name' := by
  -- the two names differ in their last characters
  have hlast := congrArg (·.text.toList.getLast?) heq
  simp only [builtin, String.toList_append, List.getLast?_append] at hlast
  simp only [Builtins.standard, List.mem_cons, List.not_mem_nil, or_false] at h h'
  rcases h with rfl | rfl <;> rcases h' with rfl | rfl
  · rfl
  · exact absurd hlast (by simp)
  · exact absurd hlast (by simp)
  · rfl

/-- **The standard preamble declares the builtin functions under one tag only.** -/
theorem builtin_mem_declared_iff {m : Mangling} {name : String}
    (h : name ∈ Builtins.standard.functions) :
    m.builtin name ∈ declared Builtins.standard.preamble ↔ m.tag = "ugo" := by
  have hstandard : declared Builtins.standard.preamble =
      Builtins.standard.functions.map (⟨"ugo"⟩ : Mangling).builtin := Builtins.declared_standard
  rw [hstandard]
  constructor
  · intro hmem
    obtain ⟨name', hname', heq⟩ := List.mem_map.mp hmem
    obtain rfl := name_of_builtin_eq hname' h heq
    exact (tag_of_builtin_eq heq).symm
  · intro htag
    obtain rfl : m = ⟨"ugo"⟩ := eq_of_tag_eq htag
    exact List.mem_map_of_mem h

/-- Where the separator is in none of two parts, there is one way to cut. -/
theorem append_cons_inj_of_not_mem {α : Type} {sep : α} {p n p' n' : List α} (hp : sep ∉ p')
    (hn : sep ∉ n') (h : p ++ sep :: n = p' ++ sep :: n') : p = p' ∧ n = n' := by
  rcases append_cons_eq_iff.mp h with h | ⟨mid, rfl, -⟩ | ⟨mid, -, rfl⟩
  · exact h
  · exact absurd (by simp) hp
  · exact absurd (by simp) hn

/-- **A label whose parts hold no underscore is the label of one function only**, whatever tags
labels begin with. -/
theorem function_eq_iff_of_plain {m m' : Mangling} {p n p' n' : String} (htag : '_' ∉ m'.tag.toList)
    (hp : '_' ∉ p'.toList) (hn : '_' ∉ n'.toList) :
    m.function p n = m'.function p' n' ↔ m.tag = m'.tag ∧ p = p' ∧ n = n' := by
  have hsplit : ∀ (m : Mangling) (q k : String), (m.function q k).text.toList =
      (('@' :: m.tag.toList) ++ '_' :: q.toList) ++ '_' :: k.toList := by
    intro m q k
    simp [function, String.toList_append]
  have htag' : '_' ∉ '@' :: m'.tag.toList := by simp [htag]
  constructor
  · intro h
    have htext := congrArg (·.text.toList) h
    simp only [hsplit] at htext
    rcases append_cons_eq_iff.mp htext with ⟨hfront, hname⟩ | ⟨mid, hfront, -⟩ | ⟨mid, -, hname⟩
    · obtain ⟨htags, hpackages⟩ := append_cons_inj_of_not_mem htag' hp hfront
      exact ⟨String.toList_inj.mp (List.cons.inj htags).2, String.toList_inj.mp hpackages,
        String.toList_inj.mp hname⟩
    · -- the tag would hold the underscore in front of the package
      obtain ⟨htags, -⟩ := append_cons_inj_of_not_mem htag' hp hfront.symm
      exact absurd (by rw [← htags]; simp) htag'
    · exact absurd (by rw [hname]; simp) hn
  · rintro ⟨htags, rfl, rfl⟩
    obtain rfl : m = m' := eq_of_tag_eq htags
    rfl

end Mangling

/-! ## The calls of a listing -/

/-- The function that an instruction calls. -/
def Instr.callee? : Instr → Option Label
  | .call _ f _ => some f
  | _ => none

theorem Instr.isStep_of_callee {i : Instr} {f : Label} (h : i.callee? = some f) :
    i.isStep = true := by
  cases i with
  | call => rfl
  | _ => exact absurd h (by simp [callee?])

/-- Statements call what names stand for outside of all packages. -/
theorem StmtsCode.callee {m : Mangling} {names : NameTable} {univ : Layer} {ls ls' : List Layer}
    {k k' : Nat} {ts : List StmtTree} {code : List Instr}
    (h : StmtsCode m names univ ls k ts code ls' k') {i : Instr} (hi : i ∈ code) {f : Label}
    (hf : i.callee? = some f) : ∃ n symbol, univ n = some symbol ∧ symbol.label = f := by
  cases h.stmtInstr i hi with
  | expr he =>
    cases he with
    | call builtin => exact ⟨_, _, builtin, Option.some.inj hf⟩
    | load | binary => cases hf
  | alloca | store => cases hf

namespace Compiler

variable {c : Compiler} {names : NameTable} {u : SourceUnit}

/-- **A listing calls builtin functions only.** -/
theorem UnitCode.callee_builtin {package : String} {globals : List Symbol} {functions : List Instr}
    {k : Nat} (h : c.UnitCode names u package globals functions k) {i : Instr}
    (hi : i ∈ (c.assemble names u package globals functions).instrs) {f : Label}
    (hf : i.callee? = some f) : ∃ name ∈ c.builtins.functions, f = c.mangling.builtin name := by
  obtain ⟨pre, post, hpoint⟩ := List.append_of_mem hi
  obtain ⟨t, k₀, body, inner, k₁, pre', post', rest, hbody, rfl, -⟩ :=
    h.point pre i post hpoint (Instr.isStep_of_callee hf)
  obtain ⟨n, symbol, hsymbol, rfl⟩ := hbody.callee (by simp) hf
  obtain ⟨name, hname, -, hlabel⟩ := builtinLayer_eq_some hsymbol
  exact ⟨name, hname, hlabel⟩

/-- **What goes with the standard runtime.** Every call of a listing is a call of a builtin
function, which the preamble declares just if labels begin with `ugo`. If the listing ends with the
code that starts the program, it defines the entry function. The function with which that code
starts is defined just if labels begin with `ugo`, the package is `main` and it has a function
`main` with a body; whether this is the entry function does not matter. -/
theorem standard_runtime_links (hu : u.WellFormed names) (hb : c.builtins = .standard)
    {listing : Listing} (h : (c.compile names u).outcome = .ok listing) :
    ∃ package chunks, names.text? u.package = some package ∧
      c.HasChunks names u package listing chunks ∧
      (∀ i ∈ listing.instrs, ∀ f, i.callee? = some f →
        (∃ name ∈ Builtins.standard.functions, f = c.mangling.builtin name) ∧
        (f ∈ declared c.builtins.preamble ↔ c.config.labelTag = "ugo")) ∧
      (c.Starts names u →
        .define (c.mangling.function c.config.entryPackage c.config.entryFunction) ∈
          listing.instrs) ∧
      ((∀ f ∈ started c.builtins.trampoline, .define f ∈ listing.instrs) ↔
        c.config.labelTag = "ugo" ∧ package = "main" ∧
          ∃ g ∈ u.functions, g.body.isSome = true ∧ names.text? g.name = some "main") := by
  obtain ⟨package, globals, functions, k, hunit, rfl⟩ := compile_translates h
  obtain ⟨chunks, -, hchunks⟩ := hunit.exists_chunks hu.toInBounds
  refine ⟨package, chunks, hunit.packageText, hchunks, ?_, ?_, ?_⟩
  · intro i hi f hf
    obtain ⟨name, hname, rfl⟩ := hunit.callee_builtin hi hf
    rw [hb] at hname
    rw [hb]
    exact ⟨⟨name, hname, rfl⟩, Mangling.builtin_mem_declared_iff hname⟩
  · rintro ⟨hpackage, g, hg, hbody, htext⟩
    obtain rfl := Option.some.inj (hunit.packageText.symm.trans hpackage)
    exact hchunks.define_mem_iff.mpr ⟨g, hg, hbody, _, htext, rfl⟩
  · have hstarted : started c.builtins.trampoline =
        [(⟨"ugo"⟩ : Mangling).function "main" "main"] := by
      rw [hb]
      exact Builtins.started_standard
    -- no part of the label that is called holds an underscore
    have hlabel : ∀ text, (⟨"ugo"⟩ : Mangling).function "main" "main" =
        c.mangling.function package text ↔ c.config.labelTag = "ugo" ∧ package = "main" ∧
          text = "main" := by
      intro text
      rw [eq_comm]
      exact Mangling.function_eq_iff_of_plain (by decide) (by decide) (by decide)
    simp only [hstarted, List.mem_singleton, forall_eq, hchunks.define_mem_iff, hlabel]
    constructor
    · rintro ⟨g, hg, hbody, text, htext, htag, hpackage, rfl⟩
      exact ⟨htag, hpackage, g, hg, hbody, htext⟩
    · rintro ⟨htag, hpackage, g, hg, hbody, htext⟩
      exact ⟨g, hg, hbody, "main", htext, htag, hpackage, rfl⟩

/-- The small program, with the standard runtime: what is called is declared, and the function with
which the program starts is defined. -/
theorem standard_runtime_links_counter :
    ∃ listing, (({} : Compiler).compile Counter.names Counter.program).outcome = .ok listing ∧
      (∀ i ∈ listing.instrs, ∀ f, i.callee? = some f → f ∈ declared Builtins.standard.preamble) ∧
      ({} : Compiler).Starts Counter.names Counter.program ∧
      ∀ f ∈ started Builtins.standard.trampoline, .define f ∈ listing.instrs := by
  obtain ⟨listing, h⟩ := Counter.program_compiles
  obtain ⟨package, -, hpackage, -, hcalls, -, hstarts⟩ := standard_runtime_links
    (Counter.program_inBounds.wellFormed Counter.program_descending) rfl h
  obtain rfl : "main" = package := Option.some.inj hpackage
  exact ⟨listing, h, fun i hi f hf => (hcalls i hi f hf).2.mpr rfl, by decide,
    hstarts.mpr ⟨rfl, rfl, by decide⟩⟩

end Compiler

namespace Starter

/-- The names of the program. -/
def names : NameTable := (NameTable.initial.internAll ["main", "start"]).2

/-- The package `main` with one function `start`, whose body is empty. -/
def program : SourceUnit where
  package := ⟨1⟩
  functions := [⟨⟨2⟩, some ⟨0⟩, .single 1⟩]
  nodes := { stmts := #[⟨.block ⟨0, 0⟩, .single 0⟩] }

theorem program_wellFormed : program.WellFormed names := by
  have hbounds : program.InBounds names :=
    ⟨by decide, by decide, by decide, by decide, by decide, by decide⟩
  exact hbounds.wellFormed ⟨by decide, by decide⟩

/-- The compiler for which programs start with `start`. -/
def compiler : Compiler := { config := { entryFunction := "start" } }

end Starter

/-- With the entry function `start`, a program is started by code that calls a function which the
listing does not define. With labels that begin otherwise, the small program moreover calls a
function that the standard preamble does not declare. -/
theorem Compiler.standard_runtime_unlinked :
    (Starter.program.WellFormed Starter.names ∧
      Starter.compiler.Starts Starter.names Starter.program ∧
      ∃ listing, (Starter.compiler.compile Starter.names Starter.program).outcome = .ok listing ∧
        ⟨"@ugo_main_main"⟩ ∈ started Starter.compiler.builtins.trampoline ∧
        .define ⟨"@ugo_main_main"⟩ ∉ listing.instrs ∧
        .define ⟨"@ugo_main_start"⟩ ∈ listing.instrs) ∧
    Counter.program.WellFormed Counter.names ∧
      ({ config := { labelTag := "app" } } : Compiler).Starts Counter.names Counter.program ∧
      ∃ listing, (({ config := { labelTag := "app" } } : Compiler).compile Counter.names
          Counter.program).outcome = .ok listing ∧
        (∃ i ∈ listing.instrs, i.callee? = some ⟨"@app_builtin_println"⟩) ∧
        ⟨"@app_builtin_println"⟩ ∉ declared Builtins.standard.preamble ∧
        .define ⟨"@ugo_main_main"⟩ ∉ listing.instrs := by
  have hrun : (Starter.compiler.compile Starter.names Starter.program).outcome.toOption.any
      (fun listing => decide (.define ⟨"@ugo_main_main"⟩ ∉ listing.instrs ∧
        .define ⟨"@ugo_main_start"⟩ ∈ listing.instrs)) = true := by decide +kernel
  have hrun' : (({ config := { labelTag := "app" } } : Compiler).compile Counter.names
      Counter.program).outcome.toOption.any (fun listing =>
        decide ((∃ i ∈ listing.instrs, i.callee? = some ⟨"@app_builtin_println"⟩) ∧
          .define ⟨"@ugo_main_main"⟩ ∉ listing.instrs)) = true := by decide +kernel
  obtain ⟨listing, h, hdefines⟩ := exists_ok_of_any hrun
  obtain ⟨listing', h', hcalls⟩ := exists_ok_of_any hrun'
  obtain ⟨hcall, hundefined⟩ := of_decide_eq_true hcalls
  have hstarted : ⟨"@ugo_main_main"⟩ ∈ started Starter.compiler.builtins.trampoline := by
    have hstandard : started Starter.compiler.builtins.trampoline = [⟨"@ugo_main_main"⟩] :=
      Builtins.started_standard
    rw [hstandard]
    exact List.mem_singleton_self _
  refine ⟨⟨Starter.program_wellFormed, by decide, listing, h, hstarted,
    of_decide_eq_true hdefines⟩, Counter.program_inBounds.wellFormed Counter.program_descending,
    by decide, listing', h', hcall, ?_, hundefined⟩
  rw [Builtins.declared_standard]
  decide

end RegisterCode
