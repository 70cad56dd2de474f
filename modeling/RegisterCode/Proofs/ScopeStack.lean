import Mathlib.Data.List.Infix
import RegisterCode.Proofs.UnitCode

/-!
# Scope chains refine stacks of maps

A chain of scopes is used by opening a scope, binding a symbol and closing a scope, in any order;
closing the universe fails and changes nothing. A `LayerStack` is used in the same way, and knows
no frames and no parents: it is a list of maps that is never empty. Whatever is done to both, they
give the same replies, and the chain stays linked and shows the maps of the stack (`Refines`).

The operations between the opening of a scope and its closing are balanced. They never reach below
that scope, so closing it gives back the chain as it was before (`leave_balanced`).

Results: `perform_refines` (one operation), `run_frames` (what a run leaves alone), and all of it
together in `chain_refines_stack`.
-/

namespace RegisterCode

/-! ## Operations -/

/-- What can be done to the open scopes. -/
inductive ScopeOp where
  | enter
  | insert (s : Symbol)
  | leave
  deriving DecidableEq

/-- What comes back from an operation on scopes. -/
inductive ScopeReply where
  /-- The number of the scope that was opened. -/
  | entered (scope : Nat)
  /-- The symbol that was replaced, if there was one. -/
  | inserted (replaced : Option Symbol)
  /-- The innermost scope was closed. -/
  | left
  /-- Nothing was done. -/
  | failed (f : Fault)
  deriving DecidableEq

namespace ScopeOp

/-- Carry out operations one after the other. -/
def run {α : Type} (perform : α → ScopeOp → ScopeReply × α) :
    α → List ScopeOp → List ScopeReply × α
  | a, [] => ([], a)
  | a, op :: ops =>
    let (reply, a) := perform a op
    let (replies, a) := run perform a ops
    (reply :: replies, a)

/-- What every operation keeps related stays related in a run, and the replies are the same. -/
theorem run_related {α β : Type} {f : α → ScopeOp → ScopeReply × α}
    {g : β → ScopeOp → ScopeReply × β} {R : α → β → Prop}
    (step : ∀ a b op, R a b → (f a op).1 = (g b op).1 ∧ R (f a op).2 (g b op).2) {a : α} {b : β}
    (h : R a b) (ops : List ScopeOp) :
    (run f a ops).1 = (run g b ops).1 ∧ R (run f a ops).2 (run g b ops).2 := by
  induction ops generalizing a b with
  | nil => exact ⟨rfl, h⟩
  | cons op ops ih =>
    obtain ⟨hreply, hnext⟩ := step a b op h
    obtain ⟨hreplies, hlast⟩ := ih hnext
    exact ⟨congrArg₂ List.cons hreply hreplies, hlast⟩

/-- Every scope that is closed was opened in between, and every scope that was opened in between is
closed. -/
structure Balanced (ops : List ScopeOp) : Prop where
  inside : ∀ done ∈ ops.inits, done.count .leave ≤ done.count .enter
  closed : ops.count .leave = ops.count .enter

end ScopeOp

namespace ScopeChain

/-- An operation on a chain. -/
def perform (c : ScopeChain) : ScopeOp → ScopeReply × ScopeChain
  | .enter => (.entered c.enter.current, c.enter)
  | .insert s => (.inserted (c.insert s).1, (c.insert s).2)
  | .leave =>
    match c.leave with
    | .ok _ c => (.left, c)
    | .error f c => (.failed f, c)

/-- What a name is bound to in the scope of the given number. -/
def binding (c : ScopeChain) (scope : Nat) (n : Name) : Option Symbol :=
  c.frames[scope]?.bind (·.lookup n)

end ScopeChain

/-- A stack of maps from names to symbols, with one map at least. -/
structure LayerStack where
  /-- The innermost map. -/
  top : Layer
  /-- The maps around it, innermost first. -/
  rest : List Layer

namespace LayerStack

/-- All maps, innermost first. -/
def layers (st : LayerStack) : List Layer := st.top :: st.rest

/-- One map with the given symbols, of which a later one replaces an earlier one. -/
def ofUniverse (symbols : List Symbol) : LayerStack := ⟨.ofSymbols symbols, []⟩

/-- An operation on a stack. The last map is not removed. -/
def perform (st : LayerStack) : ScopeOp → ScopeReply × LayerStack
  | .enter => (.entered st.layers.length, ⟨.empty, st.layers⟩)
  | .insert s => (.inserted (st.top s.name), ⟨st.top.bind s, st.rest⟩)
  | .leave =>
    match st.rest with
    | [] => (.failed .leftUniverse, st)
    | l :: ls => (.left, ⟨l, ls⟩)

end LayerStack

/-! ## Refinement -/

namespace ScopeChain

variable {c c' : ScopeChain} {st : LayerStack} {n : Name}

/-- The chain is linked and shows the maps of the stack. -/
structure Refines (c : ScopeChain) (st : LayerStack) : Prop where
  linked : c.Linked
  layers_eq : c.layers = st.layers

theorem length_layers (c : ScopeChain) : c.layers.length = c.depth := by
  simp [layers, depth]

theorem ofUniverse_refines (symbols : List Symbol) :
    (ofUniverse symbols).Refines (.ofUniverse symbols) := by
  obtain ⟨hlinked, hlayers⟩ := ofUniverse_layers symbols
  exact ⟨hlinked, hlayers⟩

/-- **One operation has the same reply on the chain and on the stack, and leads to a chain that
refines the stack.** -/
theorem perform_refines (c : ScopeChain) (st : LayerStack) (op : ScopeOp) (h : c.Refines st) :
    (c.perform op).1 = (st.perform op).1 ∧ (c.perform op).2.Refines (st.perform op).2 := by
  have hdepth : c.depth = st.rest.length + 1 := by
    rw [← length_layers, h.layers_eq]
    rfl
  cases op with
  | enter =>
    refine ⟨?_, h.linked.enter, ?_⟩
    · have hcurrent : c.enter.current = c.depth := by simp [current, enter, depth]
      exact congrArg ScopeReply.entered (hcurrent.trans hdepth)
    · exact (layers_enter c).trans (congrArg (Layer.empty :: ·) h.layers_eq)
  | insert s =>
    refine ⟨?_, h.linked.insert s, layers_insert h.layers_eq s⟩
    obtain ⟨l, hl, hlookup⟩ := c.exists_layers_eq
    have htop : l = st.top := (List.cons.inj (hl.symm.trans h.layers_eq)).1
    exact congrArg ScopeReply.inserted (htop ▸ hlookup s.name)
  | leave =>
    obtain ⟨top, rest⟩ := st
    cases rest with
    | nil =>
      simp only [perform, leave_of_le (Nat.le_of_eq hdepth)]
      exact ⟨rfl, h⟩
    | cons l ls =>
      have hlt : 1 < c.depth := by
        rw [hdepth, List.length_cons]
        omega
      simp only [perform, leave_of_lt hlt]
      refine ⟨rfl, h.linked.outer hlt, ?_⟩
      rw [layers_outer, h.layers_eq]
      rfl

/-! ## Bindings -/

theorem binding_eq (c : ScopeChain) (i : Nat) (n : Name) :
    c.binding i n = c.layers.reverse[i]?.bind (· n) := by
  rw [binding, layers, List.reverse_reverse, List.getElem?_map, Array.getElem?_toList]
  cases c.frames[i]? <;> rfl

/-- A layer counts from the outermost one. -/
theorem getElem?_reverse_cons (l : Layer) (ls : List Layer) (i : Nat) :
    (l :: ls).reverse[i]? = if i = ls.length then some l else ls.reverse[i]? := by
  rw [List.reverse_cons]
  by_cases hi : i = ls.length
  · simp [hi]
  · rw [if_neg hi]
    by_cases hlt : i < ls.length
    · rw [List.getElem?_append_left (by simpa using hlt)]
    · rw [List.getElem?_eq_none (by simp; omega), List.getElem?_eq_none (by simp; omega)]

/-- The layer that is located is the one with the largest number among those that bind the name. -/
theorem locate_eq_some_iff {ls : List Layer} {i : Nat} {s : Symbol} :
    Layer.locate ls n = some (i, s) ↔
      i < ls.length ∧ ls.reverse[i]?.bind (· n) = some s ∧
        ∀ j, i < j → j < ls.length → ls.reverse[j]?.bind (· n) = none := by
  induction ls with
  | nil => simp [Layer.locate]
  | cons l ls ih =>
    -- scopes are numbered from the outside, so `l` has the largest number
    simp only [getElem?_reverse_cons, List.length_cons]
    cases hl : l n with
    | some s' =>
      simp only [Layer.locate, hl, Option.some.injEq, Prod.mk.injEq]
      constructor
      · rintro ⟨rfl, rfl⟩
        exact ⟨by omega, by simp [hl], fun j hj hj' => by omega⟩
      · rintro ⟨hi, hs, hmax⟩
        by_cases hlast : i = ls.length
        · simp only [hlast, if_true, Option.bind_some, hl, Option.some.injEq] at hs
          exact ⟨hlast.symm, hs⟩
        · have hnone := hmax ls.length (by omega) (by omega)
          simp [hl] at hnone
    | none =>
      simp only [Layer.locate, hl]
      rw [ih]
      constructor
      · rintro ⟨hi, hs, hmax⟩
        refine ⟨by omega, by rwa [if_neg (by omega)], fun j hj hj' => ?_⟩
        by_cases hlast : j = ls.length
        · simp [hlast, hl]
        · rw [if_neg hlast]
          exact hmax j hj (by omega)
      · rintro ⟨hi, hs, hmax⟩
        have hne : i ≠ ls.length := by
          rintro rfl
          simp [hl] at hs
        rw [if_neg hne] at hs
        refine ⟨by omega, hs, fun j hj hj' => ?_⟩
        have hnone := hmax j hj (by omega)
        rwa [if_neg (by omega)] at hnone

/-- **The search around the innermost scope ends inside the chain, with the scope of the largest
number that binds the name.** -/
theorem Linked.lookupParent (h : c.Linked) (n : Name) :
    ∃ k found, c.lookupParent n = .ok found ∧
      c.Walk n k (c.frames.back?.bind (·.parent)) found ∧
      ∀ i s, found = some (i, s) ↔ i < c.current ∧ c.binding i n = some s ∧
        ∀ j, i < j → j < c.current → c.binding j n = none := by
  obtain ⟨k, -, hwalk⟩ := h.exists_walk_parent n
  obtain ⟨l, hl, -⟩ := c.exists_layers_eq
  have hlen : c.layers.tail.length = c.current := by
    rw [List.length_tail, length_layers]
    rfl
  have hbinding : ∀ i, i < c.current →
      c.binding i n = c.layers.tail.reverse[i]?.bind (· n) := by
    intro i hi
    rw [binding_eq, hl, getElem?_reverse_cons, if_neg (by omega), List.tail_cons]
  refine ⟨k, _, lookupParent_eq h n, hwalk, fun i s => ?_⟩
  rw [locate_eq_some_iff, hlen]
  constructor
  · rintro ⟨hi, hs, hmax⟩
    exact ⟨hi, (hbinding i hi).trans hs, fun j hj hj' => (hbinding j hj').trans (hmax j hj hj')⟩
  · rintro ⟨hi, hs, hmax⟩
    exact ⟨hi, (hbinding i hi).symm.trans hs,
      fun j hj hj' => (hbinding j hj').symm.trans (hmax j hj hj')⟩

theorem lookup_eq_binding (c : ScopeChain) (n : Name) : c.lookup n = c.binding c.current n := by
  rw [lookup, Array.back?_eq_getElem?]
  rfl

/-- Binding a symbol changes what its name is bound to in the innermost scope, and nothing else. -/
theorem binding_insert (c : ScopeChain) (s : Symbol) (i : Nat) (n : Name) :
    (c.insert s).2.binding i n =
      if i = c.current ∧ n = s.name then some s else c.binding i n := by
  have hlt : c.current < c.frames.size := Nat.sub_lt c.nonempty Nat.one_pos
  unfold binding insert
  simp only [Array.getElem?_modify]
  by_cases hi : i = c.current
  · subst hi
    rw [if_pos rfl, Array.getElem?_eq_getElem hlt]
    simp only [Option.map_some, Option.bind_some, Frame.lookup_insert, true_and]
    by_cases hn : n = s.name
    · rw [if_pos hn.symm, if_pos hn]
    · rw [if_neg (Ne.symm hn), if_neg hn]
  · rw [if_neg (Ne.symm hi), if_neg (fun h => hi h.1)]

/-! ## Closing what was opened -/

/-- A chain with one frame more gives back, when that one is closed, the chain without it. -/
theorem leave_eq_of_frames (hdepth : c'.depth = c.depth + 1)
    (hframes : ∀ i < c.depth, c'.frames[i]? = c.frames[i]?) : c'.leave = .ok () c := by
  have hlt : 1 < c'.depth := hdepth ▸ Nat.succ_lt_succ c.nonempty
  unfold depth at hdepth hframes
  have heq : c'.outer hlt = c := by
    ext1
    apply Array.ext_getElem?
    intro i
    rw [outer, Array.getElem?_pop]
    by_cases hi : i < c.frames.size
    · rw [if_pos (by omega), hframes i hi]
    · rw [if_neg (by omega), Array.getElem?_eq_none (by omega)]
  rw [leave_of_lt hlt, heq]

/-- An operation that keeps more than `m` scopes open leaves the first `m` frames alone. -/
theorem perform_frames {m : Nat} {op : ScopeOp} (hm : m < c.depth)
    (hop : m + [op].count .leave < c.depth + [op].count .enter) :
    (∀ i < m, (c.perform op).2.frames[i]? = c.frames[i]?) ∧
      (c.perform op).2.depth + [op].count .leave = c.depth + [op].count .enter := by
  unfold depth at *
  cases op with
  | enter =>
    refine ⟨fun i hi => ?_, by simp [perform, enter]⟩
    simp only [perform, enter]
    rw [Array.getElem?_push, if_neg (by omega)]
  | insert s =>
    refine ⟨fun i hi => ?_, by simp [perform, insert]⟩
    simp only [perform, insert, current]
    rw [Array.getElem?_modify, if_neg (by omega)]
  | leave =>
    have hlt : m + 1 < c.frames.size := by simpa using hop
    simp only [perform, leave_of_lt (Nat.lt_of_le_of_lt (Nat.le_add_left 1 m) hlt), outer]
    refine ⟨fun i hi => ?_, ?_⟩
    · rw [Array.getElem?_pop, if_pos (by omega)]
    · simp
      omega

/-- **A run that always keeps more than `m` scopes open leaves the first `m` frames alone.** -/
theorem run_frames {m : Nat} {ops : List ScopeOp}
    (h : ∀ done ∈ ops.inits, m + done.count .leave < c.depth + done.count .enter) :
    (∀ i < m, (ScopeOp.run perform c ops).2.frames[i]? = c.frames[i]?) ∧
      (ScopeOp.run perform c ops).2.depth + ops.count .leave = c.depth + ops.count .enter := by
  induction ops generalizing c with
  | nil => exact ⟨fun _ _ => rfl, rfl⟩
  | cons op ops ih =>
    have hbegun : ∀ done, done <+: op :: ops →
        m + done.count .leave < c.depth + done.count .enter :=
      fun done hdone => h done ((List.mem_inits _ _).mpr hdone)
    obtain ⟨hframes, hdepth⟩ := perform_frames (hbegun [] List.nil_prefix)
      (hbegun [op] (List.cons_prefix_cons.mpr ⟨rfl, List.nil_prefix⟩))
    have hcount : ∀ (done : List ScopeOp) (a : ScopeOp),
        (op :: done).count a = [op].count a + done.count a := by
      intro done a
      rw [← List.count_append, List.singleton_append]
    obtain ⟨hframes', hdepth'⟩ := ih (c := (c.perform op).2) fun done hdone => by
      have hlt := hbegun (op :: done)
        (List.cons_prefix_cons.mpr ⟨rfl, (List.mem_inits _ _).mp hdone⟩)
      rw [hcount done .leave, hcount done .enter] at hlt
      omega
    refine ⟨fun i hi => (hframes' i hi).trans (hframes i hi), ?_⟩
    rw [hcount ops .leave, hcount ops .enter]
    have hrun : (ScopeOp.run perform c (op :: ops)).2 =
        (ScopeOp.run perform (c.perform op).2 ops).2 := rfl
    rw [hrun]
    omega

/-- **Closing a scope after a balanced run gives back the chain in which it was opened.** -/
theorem leave_balanced (c : ScopeChain) {inner : List ScopeOp} (h : ScopeOp.Balanced inner) :
    (ScopeOp.run perform c.enter inner).2.leave = .ok () c := by
  have hopen : ∀ done ∈ inner.inits,
      c.depth + done.count .leave < c.enter.depth + done.count .enter := by
    intro done hdone
    have hle := h.inside done hdone
    rw [depth_enter]
    omega
  obtain ⟨hframes, hdepth⟩ := run_frames hopen
  rw [depth_enter, h.closed] at hdepth
  refine leave_eq_of_frames (by omega) fun i hi => ?_
  rw [hframes i hi, enter, Array.getElem?_push, if_neg (by unfold depth at hi; omega)]

end ScopeChain

/-- **A chain of scopes refines a stack of maps.** After any operations on a universe, of which some
may have failed, the chain is linked and shows the maps of a stack that gave the same replies. A
name stands for what the innermost map that knows it says. The search around the innermost scope
ends inside the chain, with the largest number of a scope that binds the name. Binding a symbol
hands back what it replaces, and nothing else changes. Closing a scope after a balanced run gives
back the chain in which it was opened, and the universe is not closed. -/
theorem chain_refines_stack (symbols : List Symbol) (ops : List ScopeOp)
    {replies : List ScopeReply} {c : ScopeChain}
    (h : ScopeOp.run ScopeChain.perform (.ofUniverse symbols) ops = (replies, c)) :
    ∃ st, ScopeOp.run LayerStack.perform (.ofUniverse symbols) ops = (replies, st) ∧
      c.Refines st ∧
      (∀ n, c.resolve n = .ok (Layer.find st.layers n)) ∧
      (∀ n, ∃ k found, c.lookupParent n = .ok found ∧
        c.Walk n k (c.frames.back?.bind (·.parent)) found ∧
        ∀ i s, found = some (i, s) ↔ i < c.current ∧ c.binding i n = some s ∧
          ∀ j, i < j → j < c.current → c.binding j n = none) ∧
      (∀ s, (c.insert s).1 = c.binding c.current s.name ∧
        ∀ i n, (c.insert s).2.binding i n =
          if i = c.current ∧ n = s.name then some s else c.binding i n) ∧
      (∀ inner, ScopeOp.Balanced inner →
        (ScopeOp.run ScopeChain.perform c.enter inner).2.leave = .ok () c) ∧
      (c.depth = 1 → c.perform .leave = (.failed .leftUniverse, c)) := by
  obtain ⟨hreplies, hrefines⟩ := ScopeOp.run_related ScopeChain.perform_refines
    (ScopeChain.ofUniverse_refines symbols) ops
  rw [h] at hreplies hrefines
  have hlinked := hrefines.linked
  refine ⟨(ScopeOp.run LayerStack.perform (.ofUniverse symbols) ops).2, Prod.ext hreplies.symm rfl,
    hrefines, fun n => ?_, hlinked.lookupParent, fun s => ⟨?_, c.binding_insert s⟩,
    fun inner hinner => c.leave_balanced hinner, fun hdepth => ?_⟩
  · rw [ScopeChain.resolve_eq hlinked, hrefines.layers_eq]
  · exact c.lookup_eq_binding s.name
  · simp only [ScopeChain.perform, ScopeChain.leave_of_le (Nat.le_of_eq hdepth)]

namespace Shadowing

/-- A builtin function. -/
def exit : Symbol := ⟨⟨1⟩, ⟨"@ugo_builtin_exit"⟩, .builtin⟩

/-- A variable of the package. -/
def outer : Symbol := ⟨⟨2⟩, ⟨"@ugo_main_x"⟩, .global 0⟩

/-- A local variable of the same name. -/
def first : Symbol := ⟨⟨2⟩, ⟨"%local_x.pos.3"⟩, .declared ⟨0⟩⟩

/-- The same name, declared once more in the same scope. -/
def second : Symbol := ⟨⟨2⟩, ⟨"%local_x.pos.5"⟩, .declared ⟨1⟩⟩

end Shadowing

open Shadowing in
/-- The second declaration hides the first and the variable of the package; what happens in a scope
inside is gone when that one is closed. -/
theorem chain_refines_stack_shadowing :
    (∃ c, ScopeOp.run ScopeChain.perform (.ofUniverse [exit])
        [.leave, .enter, .insert outer, .enter, .insert first, .insert second] =
          ([.failed .leftUniverse, .entered 1, .inserted none, .entered 2, .inserted none,
            .inserted (some first)], c) ∧
      c.resolve ⟨2⟩ = .ok (some second) ∧ c.lookupParent ⟨2⟩ = .ok (some (1, outer)) ∧
      ScopeOp.Balanced [.insert first, .enter, .insert exit, .leave] ∧
      (ScopeOp.run ScopeChain.perform c.enter
        [.insert first, .enter, .insert exit, .leave]).2.leave = .ok () c) ∧
    ∃ c, ScopeOp.run ScopeChain.perform (.ofUniverse [exit]) [.enter, .leave] =
        ([.entered 1, .left], c) ∧ c.depth = 1 ∧ c.perform .leave = (.failed .leftUniverse, c) := by
  have hbalanced : ScopeOp.Balanced [.insert first, .enter, .insert exit, .leave] :=
    ⟨by decide, by decide⟩
  constructor
  · obtain ⟨-, -, -, -, -, -, hleave, -⟩ := chain_refines_stack [exit]
      [.leave, .enter, .insert outer, .enter, .insert first, .insert second] rfl
    exact ⟨_, rfl, by decide, by decide, hbalanced, hleave _ hbalanced⟩
  · obtain ⟨-, -, -, -, -, -, -, hfail⟩ := chain_refines_stack [exit] [.enter, .leave] rfl
    exact ⟨_, rfl, by decide, hfail (by decide)⟩

end RegisterCode
