import RegisterCode.Proofs.Independence

/-!
# Interchangeable bodies

Two trees are interchangeable as bodies of functions if the same nodes offend in them, in the same
order, and if they have the same code. A unit may be rewritten by putting other nodes below its
functions, as long as each body becomes an interchangeable one.

Result: `Compiler.outcome_of_rewrites`. A unit and a rewritten one have the same listing, or are
both rejected for the same offence.
-/

namespace RegisterCode

/-- As bodies of functions, the trees offend in the same places and have the same code. -/
structure StmtTree.Interchangeable (t t' : StmtTree) : Prop where
  offences : ∀ (builtin : Name → Bool) (vars : List Name),
    t'.offences builtin vars = t.offences builtin vars
  code : ∀ {m : Mangling} {names : NameTable} {univ globals : Layer} {k k' : Nat}
    {code : List Instr} {inner : List Layer},
    StmtsCode m names univ [Layer.empty, globals] k [t] code inner k' →
    ∃ inner', StmtsCode m names univ [Layer.empty, globals] k [t'] code inner' k'

/-- The functions have the same name, and both or neither has a body, which may be interchanged. -/
def Rewritten (nodes nodes' : NodeStore) (f f' : FunctionDecl) : Prop :=
  f'.name = f.name ∧ Option.Rel (fun id id' => ∃ t t', nodes.stmtTree id = some t ∧
    nodes'.stmtTree id' = some t' ∧ t.Interchangeable t') f.body f'.body

/-- The second unit is the first one with other nodes, below which the bodies of its functions are
interchangeable ones. -/
structure SourceUnit.Rewrites (u u' : SourceUnit) : Prop where
  package : u'.package = u.package
  globals : u'.globals = u.globals
  functions : List.Forall₂ (Rewritten u.nodes u'.nodes) u.functions u'.functions

namespace Rewritten

variable {nodes nodes' : NodeStore} {f f' : FunctionDecl}

theorem body_eq_none (h : Rewritten nodes nodes' f f') (hf : f.body = none) : f'.body = none := by
  obtain ⟨-, hbody⟩ := h
  rw [hf] at hbody
  generalize f'.body = body' at hbody
  cases hbody
  rfl

theorem exists_body (h : Rewritten nodes nodes' f f') {id : StmtId} (hf : f.body = some id) :
    ∃ id' t t', f'.body = some id' ∧ nodes.stmtTree id = some t ∧
      nodes'.stmtTree id' = some t' ∧ t.Interchangeable t' := by
  obtain ⟨-, hbody⟩ := h
  rw [hf] at hbody
  generalize f'.body = body' at hbody ⊢
  cases hbody with
  | some hrel =>
    obtain ⟨t, t', ht, ht', hinter⟩ := hrel
    exact ⟨_, t, t', rfl, ht, ht', hinter⟩

theorem isSome_eq (h : Rewritten nodes nodes' f f') : f'.body.isSome = f.body.isSome := by
  cases hf : f.body with
  | none => rw [h.body_eq_none hf]
  | some id =>
    obtain ⟨id', -, -, hf', -⟩ := h.exists_body hf
    rw [hf']
    rfl

end Rewritten

/-- Rewritten functions have the same code. -/
theorem FunctionsCode.rewrite {ctx : Lowering.Context} {nodes : NodeStore} {package : String}
    {univ globals : Layer} {k k' : Nat} {fs fs' : List FunctionDecl} {code : List Instr}
    (h : FunctionsCode ctx package univ globals k fs code k')
    (hfs : List.Forall₂ (Rewritten ctx.nodes nodes) fs fs') :
    FunctionsCode { ctx with nodes } package univ globals k fs' code k' := by
  induction h generalizing fs' with
  | nil =>
    cases hfs
    exact .nil
  | @declared k k' f text rest code named bodyless _ ih =>
    obtain ⟨f', rest', hf, hrest, rfl⟩ := List.forall₂_cons_left_iff.mp hfs
    exact .declared (hf.1 ▸ named) (hf.body_eq_none bodyless) (ih hrest)
  | @defined k k₁ k' f text body t inner rest code code' named hasBody unfolds within _ ih =>
    obtain ⟨f', rest', hf, hrest, rfl⟩ := List.forall₂_cons_left_iff.mp hfs
    obtain ⟨id', t₀, t', hid', ht₀, ht', hinter⟩ := hf.exists_body hasBody
    obtain rfl := Option.some.inj (unfolds.symm.trans ht₀)
    obtain ⟨inner', hcode⟩ := hinter.code within
    exact .defined (hf.1 ▸ named) hid' ht' hcode (ih hrest)

/-- Rewritten functions offend in the same places. -/
theorem offences_rewrite {nodes nodes' : NodeStore} {fs fs' : List FunctionDecl}
    (hfs : List.Forall₂ (Rewritten nodes nodes') fs fs') {bodies bodies' : List StmtTree}
    (h : (fs.filterMap (·.body)).mapM nodes.stmtTree = some bodies)
    (h' : (fs'.filterMap (·.body)).mapM nodes'.stmtTree = some bodies') (builtin : Name → Bool)
    (vars : List Name) :
    bodies'.flatMap (·.offences builtin vars) = bodies.flatMap (·.offences builtin vars) := by
  rw [mapM_eq_some_iff] at h h'
  induction hfs generalizing bodies bodies' with
  | nil =>
    cases h
    cases h'
    rfl
  | @cons f f' fs fs' hf _ ih =>
    cases hbody : f.body with
    | none =>
      rw [List.filterMap_cons_none hbody] at h
      rw [List.filterMap_cons_none (hf.body_eq_none hbody)] at h'
      exact ih h h'
    | some id =>
      obtain ⟨id', t₀, t₀', hbody', ht₀, ht₀', hinter⟩ := hf.exists_body hbody
      rw [List.filterMap_cons_some hbody] at h
      rw [List.filterMap_cons_some hbody'] at h'
      obtain ⟨t, ts, ht, hts, rfl⟩ := List.forall₂_cons_left_iff.mp h
      obtain ⟨t', ts', ht', hts', rfl⟩ := List.forall₂_cons_left_iff.mp h'
      obtain rfl := Option.some.inj (ht₀.symm.trans ht)
      obtain rfl := Option.some.inj (ht₀'.symm.trans ht')
      rw [List.flatMap_cons, List.flatMap_cons, hinter.offences, ih hts hts']

namespace Compiler

variable {c : Compiler} {names : NameTable} {u u' : SourceUnit}

/-- A rewritten unit starts the program iff the unit does. -/
theorem isEntry_rewrite (h : u.Rewrites u') : c.isEntry names u' = c.isEntry names u := by
  have hany : ∀ {fs fs' : List FunctionDecl}, List.Forall₂ (Rewritten u.nodes u'.nodes) fs fs' →
      fs'.any (fun f => f.body.isSome && names.text? f.name == some c.config.entryFunction) =
        fs.any fun f => f.body.isSome && names.text? f.name == some c.config.entryFunction := by
    intro fs fs' hfs
    induction hfs with
    | nil => rfl
    | cons hf _ ih => rw [List.any_cons, List.any_cons, ih, hf.isSome_eq, hf.1]
  rw [isEntry, isEntry, h.package, hany h.functions]

/-- **A unit and a rewritten one have the same listing, or are both rejected for one offence.** -/
theorem outcome_of_rewrites (hu : u.WellFormed names) (hu' : u'.WellFormed names)
    (h : u.Rewrites u') :
    (∃ listing, (c.compile names u).outcome = .ok listing ∧
      (c.compile names u').outcome = .ok listing) ∨
    ∃ bodies, u.bodies = some bodies ∧ ∃ t ∈ bodies, ∃ builtin vars, ∃ o ∈ t.offences builtin vars,
      ∃ r r', o.rejection u.nodes names = .ok r ∧ o.rejection u'.nodes names = .ok r' ∧
        (c.compile names u).outcome = .error (.rejected r) ∧
        (c.compile names u').outcome = .error (.rejected r') := by
  obtain ⟨bodies, hbodies⟩ := hu.exists_bodies
  obtain ⟨bodies', hbodies'⟩ := hu'.exists_bodies
  have hjudged := compile_judged_builtinLayer (c := c) hu hbodies
  have hjudged' := compile_judged_builtinLayer (c := c) hu' hbodies'
  rw [h.globals, offences_rewrite h.functions hbodies hbodies'] at hjudged'
  cases hos : bodies.flatMap (·.offences (fun n => (c.builtinLayer names n).isSome)
      (u.globals.map (·.name))) with
  | cons o os =>
    rw [hos] at hjudged hjudged'
    obtain ⟨r, hr, hfails⟩ := hjudged
    obtain ⟨r', hr', hfails'⟩ := hjudged'
    obtain ⟨t, ht, ho⟩ := List.mem_flatMap.mp (hos ▸ List.mem_cons_self : o ∈ bodies.flatMap _)
    exact Or.inr ⟨bodies, hbodies, t, ht, _, _, o, ho, r, r', hr, hr', hfails, hfails'⟩
  | nil =>
    rw [hos] at hjudged hjudged'
    obtain ⟨listing, hok⟩ := hjudged
    obtain ⟨listing', hok'⟩ := hjudged'
    obtain ⟨package, globals, functions, k, hunit, rfl⟩ := compile_translates hok
    obtain ⟨package', globals', functions', k', hunit', rfl⟩ := compile_translates hok'
    -- both listings are put together from the same parts
    obtain rfl : package' = package := by
      refine Option.some.inj (hunit'.packageText.symm.trans ?_)
      rw [h.package, hunit.packageText]
    obtain rfl : globals' = globals := by
      refine Option.some.inj (hunit'.globalSymbols_eq.symm.trans ?_)
      rw [h.globals, hunit.globalSymbols_eq]
    obtain ⟨rfl, -⟩ := (hunit.functionsCode.rewrite h.functions).unique hunit'.functionsCode
    refine Or.inl ⟨_, hok, hok'.trans ?_⟩
    rw [assemble, assemble, isEntry_rewrite h, h.globals]

end Compiler

end RegisterCode
