import RegisterCode.Code.Label
import RegisterCode.Source.Node

/-!
# Scopes

Lexical scopes after section 4.1 of the specification (`SPEC_FULL.md`). A scope chain is a stack of
frames. Frame `0`, the universe, holds the builtin functions and is never left, so a chain
always has an innermost frame; every further frame knows the frame it stands in. Within a frame the
newest binding of a name counts; across frames the innermost one does. Searching outward follows the
parents of the frames.

Results: binding a symbol changes what its own name stands for and nothing else (`lookup_insert`);
closing a scope that was just opened gives back the chain (`leave_enter`).

Out of scope: the limit of `2 ^ 32` open scopes (numbers of scopes are unbounded), and hashing (the
bindings of a frame are a list).
-/

namespace RegisterCode

/-- Where a symbol comes from. -/
inductive Origin where
  /-- A builtin function. -/
  | builtin
  /-- The variable of the package with this number. -/
  | global (index : Nat)
  /-- The local variable that this statement declares. -/
  | declared (stmt : StmtId)
  deriving DecidableEq

/-- What a name stands for in some scope. -/
structure Symbol where
  /-- The name that is bound. -/
  name : Name
  /-- The slot or function it stands for. -/
  label : Label
  /-- Where it comes from. -/
  origin : Origin
  deriving DecidableEq

/-- Whether the symbol is a builtin function. -/
def Symbol.isBuiltin (s : Symbol) : Bool := s.origin = .builtin

/-- The bindings of one scope. -/
structure Frame where
  /-- The bound symbols, newest first. -/
  symbols : List Symbol := []
  /-- The scope this one stands in. -/
  parent : Option Nat
  deriving DecidableEq

namespace Frame

/-- The symbol a name is bound to. -/
def lookup (f : Frame) (name : Name) : Option Symbol := f.symbols.find? (·.name = name)

/-- Bind a symbol to its name, in place of an earlier binding. -/
def insert (f : Frame) (s : Symbol) : Frame := { f with symbols := s :: f.symbols }

theorem lookup_insert (f : Frame) (s : Symbol) (name : Name) :
    (f.insert s).lookup name = if s.name = name then some s else f.lookup name := by
  by_cases h : s.name = name <;> simp [lookup, insert, h]

end Frame

/-- The scopes that are open, outermost first. -/
@[ext]
structure ScopeChain where
  /-- The frames, the universe first. -/
  frames : Array Frame
  /-- The universe is never left. -/
  nonempty : 0 < frames.size
  deriving DecidableEq

namespace ScopeChain

/-- Only the universe, without symbols. -/
def initial : ScopeChain := ⟨#[{ parent := none }], by decide⟩

/-- Number of open scopes, the universe included. -/
def depth (c : ScopeChain) : Nat := c.frames.size

/-- The number of the innermost scope. -/
def current (c : ScopeChain) : Nat := c.frames.size - 1

/-- Open a scope inside the innermost one. -/
def enter (c : ScopeChain) : ScopeChain :=
  ⟨c.frames.push { parent := some c.current }, by simp⟩

/-- The scopes around the innermost one. -/
def outer (c : ScopeChain) (h : 1 < c.depth) : ScopeChain :=
  ⟨c.frames.pop, by rw [Array.size_pop]; exact Nat.sub_pos_of_lt h⟩

/-- Close the innermost scope, unless it is the universe. -/
@[inline]
def leave (c : ScopeChain) : EStateM.Result Fault ScopeChain Unit :=
  if h : 1 < c.depth then .ok () (c.outer h) else .error .leftUniverse c

/-- The symbol a name is bound to in the innermost scope. -/
def lookup (c : ScopeChain) (name : Name) : Option Symbol :=
  c.frames.back?.bind (·.lookup name)

/-- Bind a symbol in the innermost scope; the result comes with the symbol that is replaced. -/
def insert (c : ScopeChain) (s : Symbol) : Option Symbol × ScopeChain :=
  (c.lookup s.name,
    ⟨c.frames.modify c.current (·.insert s), by rw [Array.size_modify]; exact c.nonempty⟩)

/-- The universe with the given symbols, of which a later one replaces an earlier one. -/
def ofUniverse (symbols : List Symbol) : ScopeChain :=
  symbols.foldl (fun c s => (c.insert s).2) initial

/-- The symbol a name is bound to in the universe. -/
def lookupUniverse (c : ScopeChain) (name : Name) : Option Symbol :=
  c.frames[0]?.bind (·.lookup name)

/-- Search for a name in the given scope, then in its parent and so on, through at most the given
number of scopes. The result comes with the scope that binds the name. -/
def searchOutward (c : ScopeChain) (name : Name) :
    Nat → Option Nat → Except Fault (Option (Nat × Symbol))
  | 0, _ | _, none => .ok none
  | steps + 1, some scope =>
    match c.frames[scope]? with
    | none => .error (.indexOutOfBounds c.frames.size scope)
    | some frame =>
      match frame.lookup name with
      | some symbol => .ok (some (scope, symbol))
      | none => searchOutward c name steps frame.parent

/-- Search for a name in the scopes around the innermost one. -/
def lookupParent (c : ScopeChain) (name : Name) : Except Fault (Option (Nat × Symbol)) :=
  c.searchOutward name c.depth (c.frames.back?.bind (·.parent))

/-- The symbol a name stands for: that of the innermost scope which binds it. -/
def resolve (c : ScopeChain) (name : Name) : Except Fault (Option Symbol) :=
  match c.lookup name with
  | some symbol => .ok (some symbol)
  | none => (c.lookupParent name).map (·.map Prod.snd)

/-! ## Lemmas -/

@[simp]
theorem depth_enter (c : ScopeChain) : c.enter.depth = c.depth + 1 := by
  simp [depth, enter]

@[simp]
theorem depth_insert (c : ScopeChain) (s : Symbol) : (c.insert s).2.depth = c.depth := by
  simp [depth, insert]

@[simp]
theorem depth_outer {c : ScopeChain} (h : 1 < c.depth) : (c.outer h).depth = c.depth - 1 :=
  Array.size_pop

theorem leave_of_lt {c : ScopeChain} (h : 1 < c.depth) : c.leave = .ok () (c.outer h) := dif_pos h

theorem leave_of_le {c : ScopeChain} (h : c.depth ≤ 1) : c.leave = .error .leftUniverse c :=
  dif_neg (Nat.not_lt.mpr h)

theorem leave_enter (c : ScopeChain) : c.enter.leave = .ok () c := by
  have h : 1 < c.enter.depth := by
    rw [depth_enter]
    exact Nat.succ_lt_succ c.nonempty
  rw [leave_of_lt h]
  congr
  simp [outer, enter]

end ScopeChain

end RegisterCode
