import RegisterCode.Proofs.Growth
import RegisterCode.Proofs.Simulation

/-!
# No two variables share a slot

The slot of a local variable is made of its name and of the position of its declaration, and can
be read back whatever characters the name holds (`Mangling.localSlot_inj`). Two declarations
therefore have different slots as soon as they stand at different positions. A builder sees to
that: it gives every statement a later position than all statements before it (`Builder.Ordered`),
so that a position tells the statement. If no declaration is reached twice from the functions, all
slots of a listing are different.

Results:
* `StmtsCode.reserved_eq`, `FunctionsCode.reserved_eq`: code reserves one slot for each declaration.
* `Activity.foldl_ordered`: whatever is done with a builder, its statements stay in order.
* `Compiler.slots_never_alias`: the slots of a unit that was built are different, and none is
  written like a register.

Out of scope: units of so many nodes and declarations that a position does not fit 32 bits (see
`Builder.position`).
-/

namespace RegisterCode

/-! ## Slots that code reserves -/

/-- The slot that an instruction reserves. -/
def Instr.reserved? : Instr → Option Label
  | .global slot | .alloca slot => some slot
  | .declare _ | .define _ | .store .. | .load .. | .binary .. | .call .. | .ret | .close => none

/-- The slots that code reserves, in order. -/
def reserved (code : List Instr) : List Label := code.filterMap Instr.reserved?

@[simp]
theorem reserved_append (code code' : List Instr) :
    reserved (code ++ code') = reserved code ++ reserved code' :=
  List.filterMap_append

/-- Expressions reserve no slot. -/
theorem reserved_exprInstr {univ : Layer} {ls : List Layer} {code : List Instr}
    (h : ∀ i ∈ code, ExprInstr univ ls i) : reserved code = [] := by
  refine List.filterMap_eq_nil_iff.mpr fun i hi => ?_
  cases h i hi <;> rfl

/-- The slot of a declaration with this name at this position. -/
def Mangling.declaredSlot (m : Mangling) (names : NameTable) (d : Name × Nat) : Label :=
  m.localSlot ((names.text? d.1).getD "") d.2

/-- **Statements reserve one slot for each declaration in them**, in order. -/
theorem StmtsCode.reserved_eq {m : Mangling} {names : NameTable} {univ : Layer}
    {ls ls' : List Layer} {k k' : Nat} {ts : List StmtTree} {code : List Instr}
    (h : StmtsCode m names univ ls k ts code ls' k') :
    reserved code = (StmtTree.declarationsAll ts).map (m.declaredSlot names) := by
  induction h with
  | nil => rfl
  | @var l ls ls' k k₁ k' site n text init v rest code code' value named next ih =>
    have hslot : m.declaredSlot names (n, site.span.start) = m.localSlot text site.span.start := by
      rw [Mangling.declaredSlot, named]
      rfl
    rw [reserved_append, reserved_append, reserved_exprInstr value.exprInstr, ih,
      StmtTree.declarationsAll, StmtTree.declarations, List.map_append, List.map_singleton, hslot]
    rfl
  | assign bound value next ih =>
    rw [reserved_append, reserved_append, reserved_exprInstr value.exprInstr, ih]
    rfl
  | block within next ih ih' =>
    rw [reserved_append, ih, ih', StmtTree.declarationsAll, StmtTree.declarations, List.map_append]
  | expr value next ih =>
    rw [reserved_append, reserved_exprInstr value.exprInstr, ih]
    rfl

/-- **Functions reserve one slot for each declaration in their bodies**, in order. -/
theorem FunctionsCode.reserved_eq {ctx : Lowering.Context} {package : String}
    {univ globals : Layer} {k k' : Nat} {fs : List FunctionDecl} {code : List Instr}
    (h : FunctionsCode ctx package univ globals k fs code k') :
    ∃ bodies, (fs.filterMap (·.body)).mapM ctx.nodes.stmtTree = some bodies ∧
      reserved code =
        (StmtTree.declarationsAll bodies).map (ctx.mangling.declaredSlot ctx.names) := by
  obtain ⟨bodies, chunks, hbodies, hchunks, hview⟩ := h.filterMap_eq
  refine ⟨bodies, hbodies, ?_⟩
  rw [reserved, hview (fun _ => rfl) (fun _ => rfl) rfl rfl]
  clear hbodies hview
  induction hchunks with
  | nil => rfl
  | cons hchunk _ ih =>
    obtain ⟨k₀, inner, k₁, hcode⟩ := hchunk
    have hown : List.filterMap Instr.reserved? _ = _ := hcode.reserved_eq
    rw [List.flatMap_cons, hown, ih, StmtTree.declarationsAll, StmtTree.declarationsAll,
      List.append_nil, StmtTree.declarationsAll, List.map_append]

/-! ## Declarations and the statements they are -/

mutual

/-- The statements that declare a variable, in order. -/
def StmtTree.variables : StmtTree → List StmtId
  | .var site .. => [site.id]
  | .block _ body => StmtTree.variablesAll body
  | .assign .. | .expr .. | .error .. => []

/-- The statements in a list that declare a variable. -/
def StmtTree.variablesAll : List StmtTree → List StmtId
  | [] => []
  | t :: rest => t.variables ++ StmtTree.variablesAll rest

end

/-- The statement stands at this position. -/
def NodeStore.StartsAt (store : NodeStore) (id : StmtId) (position : Nat) : Prop :=
  ∃ s, store.stmt id = .ok s ∧ s.span.start = position

section Trees

variable {store : NodeStore}

/-- The declarations of a list stand where the statements do, if those of each member do. -/
theorem variablesAll_startAt {ids : List StmtId} {ts : List StmtTree}
    (h : List.Forall₂ (fun _ t =>
      List.Forall₂ store.StartsAt t.variables (t.declarations.map Prod.snd)) ids ts) :
    List.Forall₂ store.StartsAt (StmtTree.variablesAll ts)
      ((StmtTree.declarationsAll ts).map Prod.snd) := by
  induction h with
  | nil => exact .nil
  | cons first _ ih =>
    rw [StmtTree.variablesAll, StmtTree.declarationsAll, List.map_append]
    exact List.rel_append first ih

/-- In the tree below a node, every declaration stands where the statement does that it is. -/
theorem variables_startAt {level : Nat} {id : StmtId} {t : StmtTree}
    (h : store.unfoldStmt level id = some t) :
    List.Forall₂ store.StartsAt t.variables (t.declarations.map Prod.snd) := by
  induction level generalizing id t with
  | zero => exact absurd h (by simp [NodeStore.unfoldStmt])
  | succ level ih =>
    cases NodeStore.unfoldStmt_succ.mp h with
    | var node value => exact .cons ⟨_, node, rfl⟩ .nil
    | assign | expr | error => exact .nil
    | block node listed body => exact variablesAll_startAt (body.imp fun _ _ => ih)

end Trees

/-- No statement that declares a variable is reached twice from the functions. -/
def SourceUnit.DeclaresOnce (u : SourceUnit) : Prop :=
  ∀ bodies ∈ u.bodies, (StmtTree.variablesAll bodies).Nodup

instance (u : SourceUnit) : Decidable u.DeclaresOnce :=
  inferInstanceAs (Decidable (∀ bodies ∈ u.bodies, _))

/-! ## Positions of built statements -/

namespace Builder

/-- Every statement stands behind those that were added before it, and the next position is behind
them all. -/
structure Ordered (b : Builder) : Prop where
  ascending : b.unit.nodes.stmts.toList.Pairwise fun s s' => s.span.start < s'.span.start
  before : ∀ s ∈ b.unit.nodes.stmts, s.span.start < b.position

theorem start_ordered (names : NameTable) (package : String) : (start names package).Ordered :=
  ⟨.nil, fun s hs => absurd hs (Array.not_mem_empty s)⟩

variable {b b' : Builder}

/-- Steps that add no statement. -/
theorem Ordered.of_stmts_eq (h : b.Ordered) (hstmts : b'.unit.nodes.stmts = b.unit.nodes.stmts)
    (hposition : b.position ≤ b'.position) : b'.Ordered := by
  refine ⟨hstmts ▸ h.ascending, fun s hs => ?_⟩
  rw [hstmts] at hs
  exact Nat.lt_of_lt_of_le (h.before s hs) hposition

/-- A new statement stands at the next position. -/
theorem Ordered.stmt (h : b.Ordered) (kind : StmtKind) : ((stmt kind).run b).2.Ordered := by
  have hstmts : ((Builder.stmt kind).run b).2.unit.nodes.stmts =
      b.unit.nodes.stmts.push ⟨kind, .single b.position⟩ := rfl
  have hposition : ((Builder.stmt kind).run b).2.position = b.position + 1 := rfl
  constructor
  · rw [hstmts, Array.toList_push, List.pairwise_append]
    refine ⟨h.ascending, List.pairwise_singleton _ _, fun s hs s' hs' => ?_⟩
    obtain rfl := List.mem_singleton.mp hs'
    exact h.before s (Array.mem_toList_iff.mp hs)
  · intro s hs
    rw [hstmts] at hs
    rw [hposition]
    rcases Array.mem_push.mp hs with hs | rfl
    · exact Nat.lt_succ_of_lt (h.before s hs)
    · exact Nat.lt_succ_self _

/-- A position tells the statement. -/
theorem Ordered.biUnique (h : b.Ordered) : Relator.BiUnique b.unit.nodes.StartsAt := by
  constructor
  · rintro ⟨i⟩ ⟨j⟩ p ⟨s, hs, hp⟩ ⟨s', hs', hp'⟩
    rw [NodeStore.stmt_eq_ok, ← Array.getElem?_toList] at hs hs'
    obtain ⟨hi, rfl⟩ := List.getElem?_eq_some_iff.mp hs
    obtain ⟨hj, rfl⟩ := List.getElem?_eq_some_iff.mp hs'
    have hlt := List.pairwise_iff_getElem.mp h.ascending
    rcases Nat.lt_trichotomy i j with hij | hij | hij
    · exact absurd (hp.trans hp'.symm) (Nat.ne_of_lt (hlt i j hi hj hij))
    · exact congrArg StmtId.mk hij
    · exact absurd (hp'.trans hp.symm) (Nat.ne_of_lt (hlt j i hj hi hij))
  · rintro id p p' ⟨s, hs, rfl⟩ ⟨s', hs', rfl⟩
    rw [Except.ok.inj (hs.symm.trans hs')]

end Builder

/-- **A build step keeps statements in order.** -/
theorem BuildStep.apply_ordered {b : Builder} (h : b.Ordered) (step : BuildStep) :
    (step.apply b).Ordered := by
  cases step with
  | ident | int | binary | unary | paren | call | errorExpr | global | function =>
    exact h.of_stmts_eq rfl (Nat.le_succ _)
  | var name init =>
    have hnamed : ((Builder.intern name).run b).2.Ordered := h.of_stmts_eq rfl (Nat.le_refl _)
    exact hnamed.stmt _
  | assign target value =>
    have hnamed : ((Builder.intern target).run b).2.Ordered := h.of_stmts_eq rfl (Nat.le_refl _)
    exact hnamed.stmt _
  | block body =>
    have hlisted : ((Builder.onNodes (·.addStmtList body)).run b).2.Ordered :=
      h.of_stmts_eq rfl (Nat.le_refl _)
    exact hlisted.stmt _
  | exprStmt | errorStmt => exact h.stmt _

/-- **Whatever is done with a builder keeps statements in order.** -/
theorem Activity.foldl_ordered {b : Builder} (h : b.Ordered) (later : List Activity) :
    (later.foldl Activity.apply b).Ordered := by
  induction later generalizing b with
  | nil => exact h
  | cons a later ih =>
    cases a with
    | build step => exact ih (step.apply_ordered h)
    | intern text => exact ih (h.of_stmts_eq rfl (Nat.le_refl _))

/-! ## Names of built variables -/

/-- The names of the package's variables are there. -/
def Builder.Named (b : Builder) : Prop :=
  ∀ g ∈ b.unit.globals, ∃ text, b.names.text? g.name = some text

theorem Builder.start_named (names : NameTable) (package : String) : (start names package).Named :=
  fun _ hg => absurd hg List.not_mem_nil

/-- Steps that add no variable of the package. -/
theorem Builder.Named.of_extends {b b' : Builder} (h : b.Named) (hext : b.Extends b')
    (hglobals : b'.unit.globals = b.unit.globals) : b'.Named := by
  intro g hg
  rw [hglobals] at hg
  obtain ⟨text, htext⟩ := h g hg
  exact ⟨text, hext.names _ _ htext⟩

/-- **A build step keeps the names of variables.** -/
theorem BuildStep.apply_named {b : Builder} (h : b.Named) (step : BuildStep) :
    (step.apply b).Named := by
  have hext := step.apply_extends b
  cases step with
  | global name =>
    intro g hg
    rcases List.mem_append.mp hg with hg | hg
    · obtain ⟨text, htext⟩ := h g hg
      exact ⟨text, hext.names _ _ htext⟩
    · obtain rfl := List.mem_singleton.mp hg
      exact ⟨name, InternTable.lookup_eq_ok_iff.mp (b.names.lookup_intern name)⟩
  | _ => exact h.of_extends hext rfl

/-- **Whatever is done with a builder keeps the names of variables.** -/
theorem Activity.foldl_named {b : Builder} (h : b.Named) (later : List Activity) :
    (later.foldl Activity.apply b).Named := by
  induction later generalizing b with
  | nil => exact h
  | cons a later ih =>
    cases a with
    | build step => exact ih (step.apply_named h)
    | intern text => exact ih (h.of_extends (Builder.intern_extends text b) rfl)

/-! ## The slots of a listing -/

namespace Mangling

variable {m : Mangling}

/-- The slot of a local variable is not written like a register. -/
theorem localSlot_ne_register (text : String) (position : Nat) (r : Register) :
    (m.localSlot text position).text ≠ r.text := by
  intro h
  have hsecond := congrArg (fun s => s.toList[1]?) h
  simp [localSlot, Register.text, String.toList_append] at hsecond

/-- Nor is the slot of a variable of a package. -/
theorem global_ne_register (package text : String) (r : Register) :
    (m.global package text).text ≠ r.text := by
  intro h
  have hfirst := congrArg (fun s => s.toList[0]?) h
  simp [global, Register.text, String.toList_append] at hfirst

end Mangling

/-- Declarations at different positions have different slots. -/
theorem declaredSlot_nodup (m : Mangling) (names : NameTable) {ds : List (Name × Nat)}
    (h : (ds.map Prod.snd).Nodup) : (ds.map (m.declaredSlot names)).Nodup := by
  refine List.Nodup.map_on (fun d hd d' hd' heq => ?_) (List.Nodup.of_map _ h)
  exact List.inj_on_of_nodup_map h hd hd' (Mangling.localSlot_inj heq).2

/-- Variables of a package with different texts have different slots. -/
theorem globalSymbols_nodup {m : Mangling} {names : NameTable} {package : String} {index : Nat}
    {gs : List GlobalDecl} {symbols : List Symbol}
    (h : globalSymbols m names package index gs = some symbols)
    (hgs : (gs.map (names.text? ·.name)).Nodup) : (symbols.map (·.label)).Nodup := by
  induction gs generalizing index symbols with
  | nil =>
    cases h
    exact List.nodup_nil
  | cons g gs ih =>
    obtain ⟨text, symbols', htext, hrest, rfl⟩ := globalSymbols_cons.mp h
    obtain ⟨hnot, hgs⟩ := List.nodup_cons.mp hgs
    refine List.nodup_cons.mpr ⟨fun hmem => ?_, ih hrest hgs⟩
    obtain ⟨s, hs, heq⟩ := List.mem_map.mp hmem
    obtain ⟨-, ⟨g', hg', hname⟩, text', htext', hlabel⟩ := mem_globalSymbols hrest hs
    obtain rfl : text' = text := Mangling.global_inj (hlabel.symm.trans heq)
    have hsame : names.text? g'.name = names.text? g.name := by
      rw [hname, htext', htext]
    exact hnot (List.mem_map.mpr ⟨g', hg', hsame⟩)

namespace Compiler

variable {c : Compiler} {names : NameTable} {u : SourceUnit} {package : String}
  {globals : List Symbol} {functions : List Instr} {k : Nat}

/-- The slots of a listing: those of the package's variables, then one for each declaration. -/
theorem UnitCode.reserved_eq (h : c.UnitCode names u package globals functions k) :
    ∃ bodies, u.bodies = some bodies ∧
      reserved (c.assemble names u package globals functions).instrs =
        globals.map (·.label) ++ (StmtTree.declarationsAll bodies).map
          (c.mangling.declaredSlot (c.tableWithBuiltins names)) := by
  obtain ⟨bodies, hbodies, hreserved⟩ := h.functionsCode.reserved_eq
  refine ⟨bodies, hbodies, ?_⟩
  have hglobals : reserved (globals.map fun s => .global s.label) = globals.map (·.label) := by
    unfold reserved
    rw [List.filterMap_map]
    exact congrFun (List.filterMap_eq_map (f := fun s : Symbol => s.label)) globals
  rw [instrs_assemble, reserved_append, hglobals, hreserved]
  rfl

/-- **No two variables of a unit that was built share a slot**, if the variables of the package have
different names and no declaration of a local variable is reached twice from the functions. Nor is
a slot written like a register. The names may hold any characters: the slot of a local variable
shows its name and position. -/
theorem slots_never_alias (c : Compiler) (names : NameTable) (package : String)
    (steps : List Activity) {b : Builder}
    (hb : steps.foldl Activity.apply (Builder.start names package) = b)
    (hglobals : (b.unit.globals.map (b.names.text? ·.name)).Nodup) (hvars : b.unit.DeclaresOnce)
    {listing : Listing} (h : (c.compile b.names b.unit).outcome = .ok listing) :
    (reserved listing.instrs).Nodup ∧
    (∀ slot ∈ reserved listing.instrs, ∀ r : Register, slot.text ≠ r.text) ∧
    ∀ (m : Mangling) (text text' : String) (p p' : Nat),
      m.localSlot text p = m.localSlot text' p' → text = text' ∧ p = p' := by
  obtain ⟨package, globals, functions, k, hunit, rfl⟩ := compile_translates h
  obtain ⟨bodies, hbodies, hreserved⟩ := hunit.reserved_eq
  have hlabels : ∀ s ∈ globals, ∃ text, s.label = c.mangling.global package text := by
    intro s hs
    obtain ⟨-, -, text, -, hlabel⟩ := mem_globalSymbols hunit.globalSymbols_eq hs
    exact ⟨text, hlabel⟩
  rw [hreserved]
  refine ⟨List.nodup_append.mpr ⟨?_, declaredSlot_nodup _ _ ?_, ?_⟩, ?_, ?_⟩
  · -- variables of the package have the same texts while the unit is compiled
    have hnamed : b.Named := hb ▸ Activity.foldl_named (Builder.start_named _ _) steps
    have hkept : b.unit.globals.map ((c.tableWithBuiltins b.names).text? ·.name) =
        b.unit.globals.map (b.names.text? ·.name) := by
      refine List.map_congr_left fun g hg => ?_
      obtain ⟨text, htext⟩ := hnamed g hg
      rw [htext, c.tableWithBuiltins_extends b.names _ _ htext]
    exact globalSymbols_nodup hunit.globalSymbols_eq (hkept ▸ hglobals)
  · have hordered : b.Ordered := hb ▸ Activity.foldl_ordered (Builder.start_ordered _ _) steps
    have hstart := variablesAll_startAt
      ((mapM_eq_some_iff.mp hbodies).imp fun _ _ => variables_startAt)
    exact (List.rel_nodup hordered.biUnique hstart).mp (hvars bodies hbodies)
  · intro slot hslot slot' hslot' heq
    obtain ⟨s, hs, rfl⟩ := List.mem_map.mp hslot
    obtain ⟨d, -, rfl⟩ := List.mem_map.mp hslot'
    obtain ⟨text, hlabel⟩ := hlabels s hs
    exact Mangling.global_ne_localSlot (hlabel.symm.trans heq)
  · intro slot hslot r
    rcases List.mem_append.mp hslot with hslot | hslot
    · obtain ⟨s, hs, rfl⟩ := List.mem_map.mp hslot
      obtain ⟨text, hlabel⟩ := hlabels s hs
      exact hlabel ▸ Mangling.global_ne_register package text r
    · obtain ⟨d, -, rfl⟩ := List.mem_map.mp hslot
      exact Mangling.localSlot_ne_register _ _ r
  · exact fun m text text' p p' => Mangling.localSlot_inj

/-- A unit with five variables that are named like slots and registers. -/
def oddNames : Builder :=
  [.build (.global "x"), .build (.global "main.x"), .build (.var "x" none),
    .build (.var "x.pos.2" none), .build (.var "%t0" none), .build (.block [⟨1⟩, ⟨2⟩]),
    .build (.block [⟨0⟩, ⟨3⟩]), .build (.function "@main.x" (some ⟨4⟩))].foldl Activity.apply
      (Builder.start .initial "main")

/-- Its slots are different. -/
theorem slots_of_oddNames :
    (oddNames.unit.globals.map (oddNames.names.text? ·.name)).Nodup ∧
    oddNames.unit.DeclaresOnce ∧
    ∃ listing, (({} : Compiler).compile oddNames.names oddNames.unit).outcome = .ok listing ∧
      (reserved listing.instrs).length = 5 ∧ (reserved listing.instrs).Nodup := by
  have hglobals : (oddNames.unit.globals.map (oddNames.names.text? ·.name)).Nodup := by
    decide +kernel
  have hvars : oddNames.unit.DeclaresOnce := by decide +kernel
  have hcompiles : (({} : Compiler).compile oddNames.names oddNames.unit).outcome.toOption.any
      (fun listing => decide ((reserved listing.instrs).length = 5)) = true := by decide +kernel
  obtain ⟨listing, hrun, hlength⟩ := exists_ok_of_any hcompiles
  exact ⟨hglobals, hvars, listing, hrun, of_decide_eq_true hlength,
    (slots_never_alias {} .initial "main" _ rfl hglobals hvars hrun).1⟩

end Compiler

end RegisterCode
