import RegisterCode.Proofs.UnitCode
import RegisterCode.Proofs.WellFormed

/-!
# Units that differ in names only

A name is a number in a table, and which number a string gets depends on what was interned before
it. Two units are alike if they differ in names only, and in these only so far that names at the
same place have the same text, each in its own table. Since a table holds every string once, the
names of two alike units match one to one, so that a search by number ends alike in both.

Results: alike nodes render to the same text (`exprText_eq`, `stmtText_eq`), and a name stands for
alike symbols in alike chains of scopes (`ScopeChain.Alike.resolve`).
-/

namespace RegisterCode

/-- Two names with the same text, each in its own table. -/
def SameText (t t' : NameTable) (n n' : Name) : Prop :=
  ∃ s, t.text? n = some s ∧ t'.text? n' = some s

/-- The relation pairs names one to one. -/
def OneToOne (R : Name → Name → Prop) : Prop :=
  ∀ {n n' m m' : Name}, R n n' → R m m' → (n = m ↔ n' = m')

namespace SameText

variable {t t' : NameTable} {n n' : Name}

theorem lookup_eq (h : SameText t t' n n') : t.lookup n = t'.lookup n' := by
  obtain ⟨s, hn, hn'⟩ := h
  rw [InternTable.lookup_eq_ok_iff.mpr hn, InternTable.lookup_eq_ok_iff.mpr hn']

theorem text_eq (h : SameText t t' n n') : t.text? n = t'.text? n' := by
  obtain ⟨s, hn, hn'⟩ := h
  rw [hn, hn']

theorem extend {u u' : NameTable} (h : SameText t t' n n') (ht : t.Extends u)
    (ht' : t'.Extends u') : SameText u u' n n' := by
  obtain ⟨s, hn, hn'⟩ := h
  exact ⟨s, ht n s hn, ht' n' s hn'⟩

/-- Names are paired one to one. -/
theorem oneToOne : OneToOne (SameText t t') := by
  rintro n n' m m' ⟨s, hn, hn'⟩ ⟨r, hm, hm'⟩
  constructor
  · rintro rfl
    obtain rfl := Option.some.inj (hn.symm.trans hm)
    exact NameTable.text_inj hn' hm'
  · rintro rfl
    obtain rfl := Option.some.inj (hn'.symm.trans hm')
    exact NameTable.text_inj hn hm

end SameText

/-! ## Arrays -/

/-- Two arrays of the same size whose entries are related. -/
structure Pointwise {α β : Type} (R : α → β → Prop) (a : Array α) (b : Array β) : Prop where
  size_eq : a.size = b.size
  rel : ∀ {i : Nat} {x : α} {y : β}, a[i]? = some x → b[i]? = some y → R x y

namespace Pointwise

variable {α β : Type} {R S : α → β → Prop} {a : Array α} {b : Array β}

theorem empty : Pointwise R #[] #[] where
  size_eq := rfl
  rel := by
    intro i x y hx
    exact absurd hx (by simp)

theorem entry (h : Pointwise R a b) (i : Nat) :
    (a[i]? = none ∧ b[i]? = none) ∨ ∃ x y, a[i]? = some x ∧ b[i]? = some y ∧ R x y := by
  by_cases hi : i < a.size
  · have hx := Array.getElem?_eq_getElem hi
    have hy := Array.getElem?_eq_getElem (h.size_eq ▸ hi : i < b.size)
    exact Or.inr ⟨_, _, hx, hy, h.rel hx hy⟩
  · have hi' : ¬ i < b.size := h.size_eq ▸ hi
    exact Or.inl ⟨Array.getElem?_eq_none (Nat.not_lt.mp hi),
      Array.getElem?_eq_none (Nat.not_lt.mp hi')⟩

theorem imp (h : Pointwise R a b) (himp : ∀ x y, R x y → S x y) : Pointwise S a b where
  size_eq := h.size_eq
  rel hx hy := himp _ _ (h.rel hx hy)

theorem push (h : Pointwise R a b) {x : α} {y : β} (hxy : R x y) :
    Pointwise R (a.push x) (b.push y) where
  size_eq := by rw [Array.size_push, Array.size_push, h.size_eq]
  rel := by
    intro i x' y' hx hy
    rw [Array.getElem?_push] at hx hy
    rw [← h.size_eq] at hy
    split at hx
    · next hi =>
      rw [if_pos hi] at hy
      exact Option.some.inj hx ▸ Option.some.inj hy ▸ hxy
    · next hi =>
      rw [if_neg hi] at hy
      exact h.rel hx hy

theorem pop (h : Pointwise R a b) : Pointwise R a.pop b.pop where
  size_eq := by rw [Array.size_pop, Array.size_pop, h.size_eq]
  rel := by
    intro i x y hx hy
    rw [Array.getElem?_pop] at hx hy
    rw [← h.size_eq] at hy
    split at hx
    · next hi =>
      rw [if_pos hi] at hy
      exact h.rel hx hy
    · exact absurd hx (by simp)

theorem modify (h : Pointwise R a b) (i : Nat) {f : α → α} {g : β → β}
    (hfg : ∀ x y, R x y → R (f x) (g y)) : Pointwise R (a.modify i f) (b.modify i g) where
  size_eq := by rw [Array.size_modify, Array.size_modify, h.size_eq]
  rel := by
    intro j x y hx hy
    rw [Array.getElem?_modify] at hx hy
    split at hx
    · next hi =>
      rw [if_pos hi] at hy
      obtain ⟨x', hx', rfl⟩ := Option.map_eq_some_iff.mp hx
      obtain ⟨y', hy', rfl⟩ := Option.map_eq_some_iff.mp hy
      exact hfg x' y' (h.rel hx' hy')
    · next hi =>
      rw [if_neg hi] at hy
      exact h.rel hx hy

end Pointwise

/-! ## Alike units -/

/-- Expressions that differ in related names only. -/
inductive ExprKind.Alike (R : Name → Name → Prop) : ExprKind → ExprKind → Prop where
  | ident {n n' : Name} (name : R n n') : Alike R (.ident n) (.ident n')
  | int (value : Int) : Alike R (.int value) (.int value)
  | binary (op : BinaryOp) (left right : ExprId) :
      Alike R (.binary op left right) (.binary op left right)
  | unary (op : UnaryOp) (operand : ExprId) : Alike R (.unary op operand) (.unary op operand)
  | paren (inner : ExprId) : Alike R (.paren inner) (.paren inner)
  | call {f f' : Name} (callee : R f f') (args : Slice ExprId) :
      Alike R (.call f args) (.call f' args)
  | error : Alike R .error .error

/-- Expression nodes that differ in related names only. -/
structure Expr.Alike (R : Name → Name → Prop) (e e' : Expr) : Prop where
  kind : e.kind.Alike R e'.kind
  span_eq : e.span = e'.span

/-- Statements that differ in related names only. -/
inductive StmtKind.Alike (R : Name → Name → Prop) : StmtKind → StmtKind → Prop where
  | var {n n' : Name} (name : R n n') (init : Option ExprId) : Alike R (.var n init) (.var n' init)
  | assign {n n' : Name} (target : R n n') (value : ExprId) :
      Alike R (.assign n value) (.assign n' value)
  | block (body : Slice StmtId) : Alike R (.block body) (.block body)
  | expr (value : ExprId) : Alike R (.expr value) (.expr value)
  | error : Alike R .error .error

/-- Statement nodes that differ in related names only. -/
structure Stmt.Alike (R : Name → Name → Prop) (s s' : Stmt) : Prop where
  kind : s.kind.Alike R s'.kind
  span_eq : s.span = s'.span

/-- Stores whose nodes differ in related names only. -/
structure NodeStore.Alike (R : Name → Name → Prop) (store store' : NodeStore) : Prop where
  exprs : Pointwise (Expr.Alike R) store.exprs store'.exprs
  exprItems_eq : store.exprItems = store'.exprItems
  stmts : Pointwise (Stmt.Alike R) store.stmts store'.stmts
  stmtItems_eq : store.stmtItems = store'.stmtItems

/-- Units that differ in related names only. -/
structure SourceUnit.Alike (R : Name → Name → Prop) (u u' : SourceUnit) : Prop where
  package : R u.package u'.package
  globals : List.Forall₂ (fun g g' => R g.name g'.name ∧ g.span = g'.span) u.globals u'.globals
  functions : List.Forall₂ (fun f f' => R f.name f'.name ∧ f.body = f'.body ∧ f.span = f'.span)
    u.functions u'.functions
  nodes : u.nodes.Alike R u'.nodes

section Alike

variable {R S : Name → Name → Prop}

theorem ExprKind.Alike.imp {k k' : ExprKind} (h : k.Alike R k') (himp : ∀ n n', R n n' → S n n') :
    k.Alike S k' := by
  cases h with
  | ident name => exact .ident (himp _ _ name)
  | call callee args => exact .call (himp _ _ callee) args
  | int => exact .int _
  | binary => exact .binary ..
  | unary => exact .unary ..
  | paren => exact .paren _
  | error => exact .error

theorem StmtKind.Alike.imp {k k' : StmtKind} (h : k.Alike R k') (himp : ∀ n n', R n n' → S n n') :
    k.Alike S k' := by
  cases h with
  | var name init => exact .var (himp _ _ name) init
  | assign target value => exact .assign (himp _ _ target) value
  | block => exact .block _
  | expr => exact .expr _
  | error => exact .error

theorem NodeStore.Alike.imp {store store' : NodeStore} (h : store.Alike R store')
    (himp : ∀ n n', R n n' → S n n') : store.Alike S store' where
  exprs := h.exprs.imp fun _ _ he => ⟨he.kind.imp himp, he.span_eq⟩
  exprItems_eq := h.exprItems_eq
  stmts := h.stmts.imp fun _ _ hs => ⟨hs.kind.imp himp, hs.span_eq⟩
  stmtItems_eq := h.stmtItems_eq

theorem SourceUnit.Alike.imp {u u' : SourceUnit} (h : u.Alike R u')
    (himp : ∀ n n', R n n' → S n n') : u.Alike S u' where
  package := himp _ _ h.package
  globals := h.globals.imp fun _ _ hg => ⟨himp _ _ hg.1, hg.2⟩
  functions := h.functions.imp fun _ _ hf => ⟨himp _ _ hf.1, hf.2⟩
  nodes := h.nodes.imp himp

variable {store store' : NodeStore}

/-- Reading a node of alike stores leads to alike nodes, or nowhere in both. -/
theorem NodeStore.Alike.expr (h : store.Alike R store') (id : ExprId) :
    (∃ f, store.expr id = .error f ∧ store'.expr id = .error f) ∨
      ∃ e e', store.expr id = .ok e ∧ store'.expr id = .ok e' ∧ e.Alike R e' := by
  unfold NodeStore.expr
  rcases h.exprs.entry id.index with ⟨hx, hy⟩ | ⟨e, e', hx, hy, he⟩
  · rw [hx, hy, h.exprs.size_eq]
    exact Or.inl ⟨_, rfl, rfl⟩
  · rw [hx, hy]
    exact Or.inr ⟨e, e', rfl, rfl, he⟩

theorem NodeStore.Alike.stmt (h : store.Alike R store') (id : StmtId) :
    (∃ f, store.stmt id = .error f ∧ store'.stmt id = .error f) ∨
      ∃ s s', store.stmt id = .ok s ∧ store'.stmt id = .ok s' ∧ s.Alike R s' := by
  unfold NodeStore.stmt
  rcases h.stmts.entry id.index with ⟨hx, hy⟩ | ⟨s, s', hx, hy, hs⟩
  · rw [hx, hy, h.stmts.size_eq]
    exact Or.inl ⟨_, rfl, rfl⟩
  · rw [hx, hy]
    exact Or.inr ⟨s, s', rfl, rfl, hs⟩

theorem NodeStore.Alike.exprList_eq (h : store.Alike R store') (slice : Slice ExprId) :
    store.exprList slice = store'.exprList slice :=
  congrArg slice.read h.exprItems_eq

theorem NodeStore.Alike.stmtList_eq (h : store.Alike R store') (slice : Slice StmtId) :
    store.stmtList slice = store'.stmtList slice :=
  congrArg slice.read h.stmtItems_eq

end Alike

/-! ## Rendering -/

section Rendering

open Rendering

variable {t t' : NameTable} {store store' : NodeStore}

/-- Alike expressions render to the same text. -/
theorem exprText_eq (h : store.Alike (SameText t t') store') (depth : Nat) (id : ExprId) :
    exprText store t depth id = exprText store' t' depth id := by
  induction depth using depth_induction generalizing id with
  | beyond depth hlt => rw [exprText_of_lt hlt, exprText_of_lt hlt]
  | step depth hle ih =>
    have hfun : exprText store t (depth + 1) = exprText store' t' (depth + 1) := funext ih
    rw [exprText, exprText, if_neg (Nat.not_lt.mpr hle), if_neg (Nat.not_lt.mpr hle)]
    rcases h.expr id with ⟨f, he, he'⟩ | ⟨⟨kind, span⟩, ⟨kind', span'⟩, he, he', halike⟩
    · rw [he, he']
      rfl
    · obtain ⟨hkind, -⟩ := halike
      rw [he, he', hfun]
      dsimp only at hkind
      cases hkind with
      | ident name => exact name.lookup_eq
      | call callee args =>
        simp only [NodeStore.ok_bind, callee.lookup_eq, h.exprList_eq]
      | _ => rfl

/-- Alike statements render to the same text. -/
theorem stmtText_eq (h : store.Alike (SameText t t') store') (depth : Nat) (id : StmtId) :
    stmtText store t depth id = stmtText store' t' depth id := by
  induction depth using depth_induction generalizing id with
  | beyond depth hlt => rw [stmtText_of_lt hlt, stmtText_of_lt hlt]
  | step depth hle ih =>
    have hfun : stmtText store t (depth + 1) = stmtText store' t' (depth + 1) := funext ih
    rw [stmtText, stmtText, if_neg (Nat.not_lt.mpr hle), if_neg (Nat.not_lt.mpr hle)]
    rcases h.stmt id with ⟨f, hs, hs'⟩ | ⟨⟨kind, span⟩, ⟨kind', span'⟩, hs, hs', halike⟩
    · rw [hs, hs']
      rfl
    · obtain ⟨hkind, -⟩ := halike
      rw [hs, hs', hfun]
      dsimp only at hkind
      cases hkind with
      | var name init =>
        cases init with
        | none => simp only [NodeStore.ok_bind, name.lookup_eq]
        | some init => simp only [NodeStore.ok_bind, name.lookup_eq, exprText_eq h]
      | assign target value => simp only [NodeStore.ok_bind, target.lookup_eq, exprText_eq h]
      | block body => simp only [NodeStore.ok_bind, h.stmtList_eq]
      | expr value => exact exprText_eq h (depth + 1) value
      | error => rfl

end Rendering

/-! ## Scopes -/

/-- Symbols that differ in related names only. -/
structure Symbol.Alike (R : Name → Name → Prop) (s s' : Symbol) : Prop where
  name : R s.name s'.name
  label_eq : s.label = s'.label
  origin_eq : s.origin = s'.origin

/-- Frames whose symbols differ in related names only. -/
structure Frame.Alike (R : Name → Name → Prop) (f f' : Frame) : Prop where
  symbols : List.Forall₂ (Symbol.Alike R) f.symbols f'.symbols
  parent_eq : f.parent = f'.parent

/-- Chains whose symbols differ in related names only. -/
def ScopeChain.Alike (R : Name → Name → Prop) (c c' : ScopeChain) : Prop :=
  Pointwise (Frame.Alike R) c.frames c'.frames

/-- Searches that find alike symbols, or both nothing, or both fail. -/
inductive SameFind (R : Name → Name → Prop) :
    Except Fault (Option Symbol) → Except Fault (Option Symbol) → Prop where
  | failed (f : Fault) : SameFind R (.error f) (.error f)
  | nothing : SameFind R (.ok none) (.ok none)
  | symbol {s s' : Symbol} (found : s.Alike R s') : SameFind R (.ok (some s)) (.ok (some s'))

section Scopes

variable {R : Name → Name → Prop} {c c' : ScopeChain} {n n' : Name} {s s' : Symbol}

/-- A name leads to alike symbols in alike frames. -/
theorem Frame.Alike.lookup {f f' : Frame} (h : f.Alike R f') (hR : OneToOne R) (hn : R n n') :
    Option.Rel (Symbol.Alike R) (f.lookup n) (f'.lookup n') := by
  have hsymbols := h.symbols
  unfold Frame.lookup
  generalize f.symbols = symbols at hsymbols
  generalize f'.symbols = symbols' at hsymbols
  induction hsymbols with
  | nil => exact .none
  | @cons s s' _ _ hs _ ih =>
    rw [List.find?_cons, List.find?_cons]
    by_cases heq : s.name = n
    · rw [decide_eq_true heq, decide_eq_true ((hR hs.name hn).mp heq)]
      exact .some hs
    · rw [decide_eq_false heq, decide_eq_false (mt (hR hs.name hn).mpr heq)]
      exact ih

theorem Frame.Alike.insert {f f' : Frame} (h : f.Alike R f') (hs : s.Alike R s') :
    (f.insert s).Alike R (f'.insert s') :=
  ⟨.cons hs h.symbols, h.parent_eq⟩

namespace ScopeChain.Alike

theorem enter (h : c.Alike R c') : c.enter.Alike R c'.enter := by
  have hcurrent : c.current = c'.current := by
    rw [current, current, h.size_eq]
  exact h.push ⟨.nil, congrArg some hcurrent⟩

theorem insert (h : c.Alike R c') (hs : s.Alike R s') :
    (c.insert s).2.Alike R (c'.insert s').2 := by
  have hcurrent : c.current = c'.current := by
    rw [current, current, h.size_eq]
  have hframes : Pointwise (Frame.Alike R) (c.frames.modify c.current (·.insert s))
      (c'.frames.modify c'.current (·.insert s')) := by
    rw [hcurrent]
    exact h.modify _ fun _ _ hf => hf.insert hs
  exact hframes

/-- Closing a scope works in both chains or in neither. -/
theorem leave (h : c.Alike R c') :
    (∃ f, c.leave = .error f c ∧ c'.leave = .error f c') ∨
      ∃ d d', c.leave = .ok () d ∧ c'.leave = .ok () d' ∧ d.Alike R d' := by
  have hdepth : c.depth = c'.depth := h.size_eq
  rcases Nat.lt_or_ge 1 c.depth with hlt | hle
  · exact Or.inr ⟨_, _, leave_of_lt hlt, leave_of_lt (hdepth ▸ hlt), h.pop⟩
  · exact Or.inl ⟨_, leave_of_le hle, leave_of_le (hdepth ▸ hle)⟩

theorem lookupUniverse (h : c.Alike R c') (hR : OneToOne R) (hn : R n n') :
    Option.Rel (Symbol.Alike R) (c.lookupUniverse n) (c'.lookupUniverse n') := by
  unfold ScopeChain.lookupUniverse
  rcases h.entry 0 with ⟨hf, hf'⟩ | ⟨f, f', hf, hf', halike⟩
  · rw [hf, hf']
    exact .none
  · rw [hf, hf']
    exact halike.lookup hR hn

/-- The innermost frames of alike chains. -/
theorem back (h : c.Alike R c') :
    (c.frames.back? = none ∧ c'.frames.back? = none) ∨
      ∃ f f', c.frames.back? = some f ∧ c'.frames.back? = some f' ∧ f.Alike R f' := by
  rw [Array.back?_eq_getElem?, Array.back?_eq_getElem?, ← h.size_eq]
  exact h.entry _

theorem searchOutward (h : c.Alike R c') (hR : OneToOne R) (hn : R n n') (steps : Nat)
    (scope : Option Nat) :
    SameFind R ((c.searchOutward n steps scope).map (·.map Prod.snd))
      ((c'.searchOutward n' steps scope).map (·.map Prod.snd)) := by
  induction steps generalizing scope with
  | zero => exact .nothing
  | succ steps ih =>
    cases scope with
    | none => exact .nothing
    | some scope =>
      rw [ScopeChain.searchOutward, ScopeChain.searchOutward, ← h.size_eq]
      rcases h.entry scope with ⟨hf, hf'⟩ | ⟨f, f', hf, hf', halike⟩
      · rw [hf, hf']
        exact .failed _
      · rw [hf, hf']
        have hlookup := halike.lookup hR hn
        dsimp only
        generalize f.lookup n = found at hlookup
        generalize f'.lookup n' = found' at hlookup
        cases hlookup with
        | some hs => exact .symbol hs
        | none =>
          rw [← halike.parent_eq]
          exact ih f.parent

/-- **A name stands for alike symbols in alike chains.** -/
theorem resolve (h : c.Alike R c') (hR : OneToOne R) (hn : R n n') :
    SameFind R (c.resolve n) (c'.resolve n') := by
  have hdepth : c.depth = c'.depth := h.size_eq
  unfold ScopeChain.resolve ScopeChain.lookup ScopeChain.lookupParent
  rw [← hdepth]
  rcases h.back with ⟨hf, hf'⟩ | ⟨f, f', hf, hf', halike⟩
  · rw [hf, hf']
    exact h.searchOutward hR hn _ _
  · rw [hf, hf', Option.bind_some, Option.bind_some, Option.bind_some, Option.bind_some,
      ← halike.parent_eq]
    have hlookup := halike.lookup hR hn
    generalize f.lookup n = found at hlookup
    generalize f'.lookup n' = found' at hlookup
    cases hlookup with
    | some hs => exact .symbol hs
    | none => exact h.searchOutward hR hn _ _

theorem ofUniverse {symbols symbols' : List Symbol}
    (h : List.Forall₂ (Symbol.Alike R) symbols symbols') :
    (ScopeChain.ofUniverse symbols).Alike R (ScopeChain.ofUniverse symbols') := by
  have hfold : ∀ {c c' : ScopeChain}, c.Alike R c' →
      (symbols.foldl (fun c s => (c.insert s).2) c).Alike R
        (symbols'.foldl (fun c s => (c.insert s).2) c') := by
    induction h with
    | nil => exact fun hc => hc
    | cons hs _ ih => exact fun hc => ih (hc.insert hs)
  refine hfold ⟨rfl, fun {i x y} hx hy => ?_⟩
  obtain rfl := Option.some.inj (hx.symm.trans hy)
  obtain rfl := List.mem_singleton.mp (Array.mem_def.mp (Array.mem_of_getElem? hx))
  exact ⟨.nil, rfl⟩

end ScopeChain.Alike

end Scopes

end RegisterCode
