import RegisterCode.Scope.Chain

/-!
# Scope chains as stacks of maps

Seen from outside, a scope chain is a stack of maps from names to symbols, innermost first
(`ScopeChain.layers`). Opening a scope pushes the empty map, binding a symbol changes the topmost
map at one name, closing a scope pops a map. The search outward follows parent numbers; on a chain
whose frames are linked to their predecessors (`Linked`) it finds what the topmost map that knows
the name says. `Walk` is the search without a bound on its steps; such a chain lets it end before
the bound is reached.

`Shows` fixes the two kinds of maps of a compilation: the last one is the universe and holds
builtin functions only, the others hold variables only.

Results: `lookupParent_eq` and `resolve_eq` (the search is the search in the stack), and what each
operation does to the stack (`Shows.enter`, `Shows.insert`, `Shows.leave`).
-/

namespace RegisterCode

/-- What the names of one scope stand for. -/
abbrev Layer := Name → Option Symbol

namespace Layer

/-- No name is bound. -/
def empty : Layer := fun _ => none

/-- Bind a symbol to its name. -/
def bind (l : Layer) (s : Symbol) : Layer := fun n => if s.name = n then some s else l n

/-- The symbol of the innermost layer that binds a name. -/
def find (layers : List Layer) (n : Name) : Option Symbol := layers.findSome? (· n)

/-- The innermost layer that binds a name: how many layers stand around it, and the symbol. -/
def locate : List Layer → Name → Option (Nat × Symbol)
  | [], _ => none
  | l :: ls, n =>
    match l n with
    | some s => some (ls.length, s)
    | none => locate ls n

@[simp]
theorem empty_apply (n : Name) : empty n = none := rfl

theorem bind_apply (l : Layer) (s : Symbol) (n : Name) :
    l.bind s n = if s.name = n then some s else l n := rfl

@[simp]
theorem find_nil (n : Name) : find [] n = none := rfl

theorem find_cons (l : Layer) (ls : List Layer) (n : Name) :
    find (l :: ls) n = (l n).or (find ls n) := by
  unfold find
  rw [List.findSome?_cons]
  cases l n <;> rfl

theorem find_append (ls ls' : List Layer) (n : Name) :
    find (ls ++ ls') n = (find ls n).or (find ls' n) := by
  unfold find
  rw [List.findSome?_append]

/-- The layer that is located has the symbol that is found. -/
theorem map_snd_locate (ls : List Layer) (n : Name) :
    (locate ls n).map Prod.snd = find ls n := by
  induction ls with
  | nil => rfl
  | cons l ls ih =>
    rw [find_cons, locate]
    cases l n with
    | some s => rfl
    | none => exact ih

/-- A symbol that is found is bound in one of the layers. -/
theorem mem_of_find {ls : List Layer} {n : Name} {s : Symbol} (h : find ls n = some s) :
    ∃ l ∈ ls, l n = some s :=
  List.exists_of_findSome?_eq_some h

end Layer

namespace ScopeChain

/-- The chain as a stack of maps, innermost first. -/
def layers (c : ScopeChain) : List Layer := (c.frames.toList.map Frame.lookup).reverse

/-- Every frame but the universe stands in the one before it. -/
structure Linked (c : ScopeChain) : Prop where
  parent : ∀ i f, c.frames[i]? = some f → f.parent = if i = 0 then none else some (i - 1)

/-! ## The search outward -/

theorem take_frames (c : ScopeChain) {i : Nat} {f : Frame} (h : c.frames[i]? = some f) :
    c.frames.toList.take (i + 1) = c.frames.toList.take i ++ [f] := by
  rw [List.take_add_one, Array.getElem?_toList, h]
  rfl

/-- The search outward without a bound on its steps: `Walk c n k start found` says that from scope
`start` it looks into `k` scopes, all of which are there, and ends with `found`. -/
inductive Walk (c : ScopeChain) (n : Name) : Nat → Option Nat → Option (Nat × Symbol) → Prop where
  | outside : Walk c n 0 none none
  | bound {i : Nat} {f : Frame} {s : Symbol} (frame : c.frames[i]? = some f)
      (symbol : f.lookup n = some s) : Walk c n 1 (some i) (some (i, s))
  | outward {k i : Nat} {f : Frame} {found : Option (Nat × Symbol)}
      (frame : c.frames[i]? = some f) (unbound : f.lookup n = none)
      (next : Walk c n k f.parent found) : Walk c n (k + 1) (some i) found

/-- A bound that the walk does not reach does not change its end. -/
theorem Walk.searchOutward_eq {c : ScopeChain} {n : Name} {k : Nat} {start : Option Nat}
    {found : Option (Nat × Symbol)} (h : c.Walk n k start found) {steps : Nat} (hk : k ≤ steps) :
    c.searchOutward n steps start = .ok found := by
  induction h generalizing steps with
  | outside => cases steps <;> rfl
  | bound frame symbol =>
    obtain ⟨steps, rfl⟩ := Nat.exists_eq_add_of_lt hk
    rw [searchOutward, frame]
    simp only [symbol]
  | outward frame unbound _ ih =>
    obtain ⟨steps, rfl⟩ := Nat.exists_eq_add_of_lt hk
    rw [searchOutward, frame]
    simp only [unbound]
    exact ih (by omega)

/-- From frame `i` the walk goes through the frames `i`, …, `0`. -/
theorem Linked.exists_walk {c : ScopeChain} (h : c.Linked) (n : Name) {i : Nat}
    (hi : i < c.frames.size) :
    ∃ k ≤ i + 1, c.Walk n k (some i)
      (Layer.locate ((c.frames.toList.take (i + 1)).map Frame.lookup).reverse n) := by
  induction i with
  | zero =>
    have hf : c.frames[0]? = some c.frames[0] := Array.getElem?_eq_getElem hi
    have hp := h.parent 0 _ hf
    rw [c.take_frames hf]
    cases hl : c.frames[0].lookup n with
    | some s =>
      refine ⟨1, by omega, ?_⟩
      simpa [Layer.locate, hl] using Walk.bound hf hl
    | none =>
      refine ⟨1, by omega, .outward hf hl ?_⟩
      simpa [Layer.locate, hl, hp] using Walk.outside
  | succ i ih =>
    have hf : c.frames[i + 1]? = some c.frames[i + 1] := Array.getElem?_eq_getElem hi
    have hp := h.parent (i + 1) _ hf
    have hlen : ((c.frames.toList.take (i + 1)).map Frame.lookup).reverse.length = i + 1 := by
      rw [List.length_reverse, List.length_map, List.length_take, Array.length_toList]
      omega
    rw [c.take_frames hf, List.map_append, List.reverse_append, List.map_singleton,
      List.reverse_singleton, List.singleton_append, Layer.locate]
    cases hl : c.frames[i + 1].lookup n with
    | some s =>
      refine ⟨1, by omega, ?_⟩
      simp only [hlen]
      exact .bound hf hl
    | none =>
      obtain ⟨k, hk, hwalk⟩ := ih (by omega)
      refine ⟨k + 1, by omega, .outward hf hl ?_⟩
      rw [hp, if_neg (by omega), Nat.add_sub_cancel]
      exact hwalk

/-- The frames of a chain: those around the innermost one, and that one. -/
theorem exists_frames_eq (c : ScopeChain) :
    ∃ outer last, c.frames.toList = outer ++ [last] ∧ c.frames.back? = some last ∧
      outer.length = c.current := by
  have hne : c.frames.toList ≠ [] := by
    intro hn
    have := c.nonempty
    rw [← Array.length_toList, hn] at this
    exact absurd this (by simp)
  refine ⟨c.frames.toList.dropLast, c.frames.toList.getLast hne,
    (List.dropLast_concat_getLast hne).symm, ?_, ?_⟩
  · rw [← Array.getLast?_toList, List.getLast?_eq_some_getLast hne]
  · rw [List.length_dropLast, Array.length_toList]
    rfl

/-- The search around the innermost scope ends, inside the chain, after fewer steps than there are
scopes. -/
theorem Linked.exists_walk_parent {c : ScopeChain} (h : c.Linked) (n : Name) :
    ∃ k < c.depth, c.Walk n k (c.frames.back?.bind (·.parent)) (Layer.locate c.layers.tail n) := by
  obtain ⟨outer, last, hl, hb, -⟩ := c.exists_frames_eq
  have hlast : c.frames[outer.length]? = some last := by
    rw [← Array.getElem?_toList, hl]
    simp
  have hsize : c.frames.size = outer.length + 1 := by
    rw [← Array.length_toList, hl]
    simp
  have htail : c.layers.tail = (outer.map Frame.lookup).reverse := by
    rw [layers, hl]
    simp
  unfold depth
  rw [hb, Option.bind_some, h.parent _ _ hlast, htail, hsize]
  cases ho : outer.length with
  | zero =>
    obtain rfl := List.eq_nil_of_length_eq_zero ho
    exact ⟨0, by omega, .outside⟩
  | succ m =>
    obtain ⟨k, hk, hwalk⟩ := h.exists_walk n (i := m) (by omega)
    refine ⟨k, by omega, ?_⟩
    rw [hl, List.take_append_of_le_length (by omega), List.take_of_length_le (by omega)] at hwalk
    rw [if_neg (by omega), Nat.add_sub_cancel]
    exact hwalk

/-- **Searching around the innermost scope is a search through the stack below its top.** -/
theorem lookupParent_eq {c : ScopeChain} (h : c.Linked) (n : Name) :
    c.lookupParent n = .ok (Layer.locate c.layers.tail n) := by
  obtain ⟨k, hk, hwalk⟩ := h.exists_walk_parent n
  exact hwalk.searchOutward_eq (Nat.le_of_lt hk)

theorem exists_layers_eq (c : ScopeChain) :
    ∃ l, c.layers = l :: c.layers.tail ∧ ∀ n, c.lookup n = l n := by
  obtain ⟨outer, last, hl, hb, -⟩ := c.exists_frames_eq
  refine ⟨last.lookup, by simp [layers, hl], fun n => ?_⟩
  rw [lookup, hb]
  rfl

/-- **Resolving a name is a search through the stack of maps.** -/
theorem resolve_eq {c : ScopeChain} (h : c.Linked) (n : Name) :
    c.resolve n = .ok (Layer.find c.layers n) := by
  obtain ⟨l, hl, hlookup⟩ := c.exists_layers_eq
  rw [hl, Layer.find_cons, ← Layer.map_snd_locate, resolve, lookupParent_eq h, hlookup]
  cases l n <;> rfl

/-! ## The chain of a compilation -/

/-- The chain shows these layers of variables, and behind them this universe of builtin
functions. -/
structure Shows (c : ScopeChain) (ls : List Layer) (univ : Layer) : Prop where
  linked : c.Linked
  layers_eq : c.layers = ls ++ [univ]
  vars : ∀ l ∈ ls, ∀ n s, l n = some s → s.isBuiltin = false
  funs : ∀ n s, univ n = some s → s.isBuiltin = true

variable {c : ScopeChain} {l univ : Layer} {ls : List Layer}

theorem Shows.resolve (h : c.Shows ls univ) (n : Name) :
    c.resolve n = .ok ((Layer.find ls n).or (univ n)) := by
  rw [resolve_eq h.linked, h.layers_eq, Layer.find_append, Layer.find_cons, Layer.find_nil,
    Option.or_none]

theorem Shows.lookupUniverse (h : c.Shows ls univ) (n : Name) :
    c.lookupUniverse n = univ n := by
  have hlast : c.layers.getLast? = some univ := by
    rw [h.layers_eq, List.getLast?_concat]
  rw [layers, List.getLast?_reverse, List.head?_map] at hlast
  obtain ⟨f, hf, rfl⟩ := Option.map_eq_some_iff.mp hlast
  rw [List.head?_eq_getElem?, Array.getElem?_toList] at hf
  unfold ScopeChain.lookupUniverse
  rw [hf]
  rfl

theorem layers_enter (c : ScopeChain) : c.enter.layers = Layer.empty :: c.layers := by
  simp only [layers, enter, Array.toList_push, List.map_append, List.reverse_append]
  rfl

theorem Linked.enter (h : c.Linked) : c.enter.Linked := by
  refine ⟨fun i f hf => ?_⟩
  have hpos := c.nonempty
  simp only [ScopeChain.enter, Array.getElem?_push] at hf
  split at hf
  · rename_i hi
    obtain rfl := Option.some.inj hf
    rw [if_neg (by omega), hi]
    rfl
  · exact h.parent i f hf

/-- Opening a scope adds a layer that binds nothing. -/
theorem Shows.enter (h : c.Shows ls univ) : c.enter.Shows (Layer.empty :: ls) univ where
  linked := h.linked.enter
  layers_eq := by rw [layers_enter, h.layers_eq, List.cons_append]
  vars := by
    intro l hl n s hs
    rcases List.mem_cons.mp hl with rfl | hl
    · exact absurd hs (by simp)
    · exact h.vars l hl n s hs
  funs := h.funs

theorem Linked.insert (h : c.Linked) (s : Symbol) : (c.insert s).2.Linked := by
  refine ⟨fun i f hf => ?_⟩
  simp only [ScopeChain.insert, Array.getElem?_modify] at hf
  split at hf
  · obtain ⟨g, hg, rfl⟩ := Option.map_eq_some_iff.mp hf
    exact h.parent i g hg
  · exact h.parent i f hf

theorem modify_concat (f : Frame → Frame) (outer : List Frame) (last : Frame) :
    (outer ++ [last]).modify outer.length f = outer ++ [f last] := by
  induction outer with
  | nil => rfl
  | cons g outer ih => simp [ih]

theorem layers_insert (hc : c.layers = l :: ls) (s : Symbol) :
    (c.insert s).2.layers = l.bind s :: ls := by
  obtain ⟨outer, last, hl, -, hlen⟩ := c.exists_frames_eq
  have hins : (c.insert s).2.frames.toList = outer ++ [last.insert s] := by
    rw [insert, Array.toList_modify, hl, ← hlen, modify_concat]
  rw [layers, hl] at hc
  rw [layers, hins]
  simp only [List.map_append, List.map_singleton, List.reverse_append, List.reverse_singleton,
    List.singleton_append, List.cons.injEq] at hc ⊢
  refine ⟨?_, hc.2⟩
  funext n
  rw [Frame.lookup_insert, Layer.bind_apply, hc.1]

/-- Bind symbols in the innermost scope, one after the other. -/
def insertAll (c : ScopeChain) (symbols : List Symbol) : ScopeChain :=
  symbols.foldl (fun c s => (c.insert s).2) c

theorem Linked.insertAll (h : c.Linked) (symbols : List Symbol) : (c.insertAll symbols).Linked := by
  induction symbols generalizing c with
  | nil => exact h
  | cons s symbols ih => exact ih (h.insert s)

theorem layers_insertAll (hc : c.layers = l :: ls) (symbols : List Symbol) :
    (c.insertAll symbols).layers = symbols.foldl Layer.bind l :: ls := by
  induction symbols generalizing c l with
  | nil => exact hc
  | cons s symbols ih => exact ih (layers_insert hc s)

/-- Binding a variable changes the innermost layer at its name. -/
theorem Shows.insert (h : c.Shows (l :: ls) univ) {s : Symbol} (hs : s.isBuiltin = false) :
    (c.insert s).2.Shows (l.bind s :: ls) univ where
  linked := h.linked.insert s
  layers_eq := layers_insert h.layers_eq s
  vars := by
    intro l' hl' n s' hs'
    rcases List.mem_cons.mp hl' with rfl | hl'
    · rw [Layer.bind_apply] at hs'
      split at hs'
      · exact Option.some.inj hs' ▸ hs
      · exact h.vars l List.mem_cons_self n s' hs'
    · exact h.vars l' (List.mem_cons_of_mem l hl') n s' hs'
  funs := h.funs

theorem layers_outer (h : 1 < c.depth) : (c.outer h).layers = c.layers.tail := by
  rw [layers, layers, outer, Array.toList_pop, List.map_dropLast, ← List.tail_reverse]

theorem Linked.outer (h : c.Linked) (hdepth : 1 < c.depth) : (c.outer hdepth).Linked := by
  refine ⟨fun i f hf => ?_⟩
  rw [ScopeChain.outer, Array.getElem?_pop] at hf
  split at hf
  · exact h.parent i f hf
  · exact absurd hf (by simp)

/-- Closing a scope drops the innermost layer. -/
theorem Shows.leave (h : c.Shows (l :: ls) univ) :
    ∃ c', c.leave = .ok () c' ∧ c'.Shows ls univ := by
  have hdepth : 1 < c.depth := by
    have := congrArg List.length h.layers_eq
    simp [layers] at this
    unfold depth
    omega
  refine ⟨c.outer hdepth, leave_of_lt hdepth, ⟨h.linked.outer hdepth, ?_, ?_, h.funs⟩⟩
  · rw [layers_outer, h.layers_eq]
    rfl
  · intro l' hl'
    exact h.vars l' (List.mem_cons_of_mem l hl')

end ScopeChain

end RegisterCode
