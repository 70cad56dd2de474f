import Mathlib.Data.List.Nodup
import RegisterCode.Proofs.Sections

/-!
# The register discipline

Registers are numbered through the whole listing. Every visit of an expression node writes one,
but for parentheses and the unary plus, which pass on what is below them. The value of an
expression is read once, by the instruction it was computed for; only the value of an expression
that stands as a statement is left unread.

Results: the written registers are `0, 1, …` in this order, one for every visit; a register is read
behind its write in the same function; no register is read twice, and the unread ones are the
values of expression statements (`Compiler.register_discipline`).

Out of scope: listings of so many registers that their number does not fit 32 bits (see
`RegisterCounter`).
-/

namespace RegisterCode

/-! ## What instructions read -/

/-- The registers an operand reads. -/
def Value.registers : Value → List Register
  | .reg r => [r]
  | .imm _ => []

/-- The registers an instruction reads. -/
def Instr.operands : Instr → List Register
  | .store value _ => value.registers
  | .binary _ _ left right => left.registers ++ right.registers
  | .call _ _ argument => argument.registers
  | .global _ | .declare _ | .define _ | .alloca _ | .load .. | .ret | .close => []

/-- The registers that code writes, in order. -/
def registersWritten (code : List Instr) : List Register := code.filterMap Instr.target?

/-- The registers that code reads, in order. -/
def registersRead (code : List Instr) : List Register := code.flatMap Instr.operands

@[simp]
theorem registersWritten_append (code code' : List Instr) :
    registersWritten (code ++ code') = registersWritten code ++ registersWritten code' :=
  List.filterMap_append

@[simp]
theorem registersRead_append (code code' : List Instr) :
    registersRead (code ++ code') = registersRead code ++ registersRead code' :=
  List.flatMap_append

/-! ## What a program counts -/

mutual

/-- How many registers the tree takes: one for every node in it that computes something. -/
def ExprTree.visits : ExprTree → Nat
  | .ident .. | .int .. | .error _ => 1
  | .binary _ _ left right => left.visits + right.visits + 1
  | .unary _ .pos operand => operand.visits
  | .unary _ .neg operand | .unary _ .not operand => operand.visits + 1
  | .paren _ inner => inner.visits
  | .call _ _ args => ExprTree.visitsAll args + 1

/-- How many registers the trees take together. -/
def ExprTree.visitsAll : List ExprTree → Nat
  | [] => 0
  | t :: ts => t.visits + ExprTree.visitsAll ts

end

namespace StmtTree

mutual

/-- How many registers the statement takes. -/
def visits : StmtTree → Nat
  | .var _ _ init => init.elim 0 ExprTree.visits
  | .assign _ _ value | .expr _ value => value.visits
  | .block _ body => visitsAll body
  | .error _ => 0

/-- How many registers the statements take together. -/
def visitsAll : List StmtTree → Nat
  | [] => 0
  | t :: ts => t.visits + visitsAll ts

end

mutual

/-- The registers with the values of expression statements, if `k` is the next register. -/
def discarded (k : Nat) : StmtTree → List Register
  | .expr _ value => [⟨k + value.visits - 1⟩]
  | .block _ body => discardedAll k body
  | .var .. | .assign .. | .error _ => []

/-- The registers with the values of expression statements among `ts`, if `k` is the next
register. -/
def discardedAll (k : Nat) : List StmtTree → List Register
  | [] => []
  | t :: ts => t.discarded k ++ discardedAll (k + t.visits) ts

end

end StmtTree

/-! ## Taking registers -/

/-- The `n` registers from number `k` on. -/
def registersFrom (k n : Nat) : List Register := (List.range' k n).map Register.mk

theorem registersFrom_append (k m n : Nat) :
    registersFrom k m ++ registersFrom (k + m) n = registersFrom k (m + n) := by
  unfold registersFrom
  rw [← List.map_append, List.range'_append_1]

theorem registersFrom_nodup (k n : Nat) : (registersFrom k n).Nodup :=
  List.Nodup.map (fun _ _ h => Register.mk.inj h) List.nodup_range'

theorem mem_registersFrom {k n : Nat} {r : Register} :
    r ∈ registersFrom k n ↔ k ≤ r.index ∧ r.index < k + n := by
  unfold registersFrom
  rw [List.mem_map]
  constructor
  · rintro ⟨i, hi, rfl⟩
    exact List.mem_range'_1.mp hi
  · intro h
    exact ⟨r.index, List.mem_range'_1.mpr h, rfl⟩

/-- Code that takes the `n` registers from number `k` on and leaves `unread` to the code behind. -/
structure TakesRegisters (k n : Nat) (code : List Instr) (unread : List Register) : Prop where
  /-- It writes them in order. -/
  written : registersWritten code = registersFrom k n
  /-- It reads each of them once, but for those it leaves. -/
  read : (registersRead code ++ unread).Perm (registersWritten code)
  /-- It reads none that it has not written yet. -/
  supplied : EveryPoint (fun pre i _ => ∀ r ∈ i.operands, r ∈ registersWritten pre) code

namespace TakesRegisters

variable {k n n' : Nat} {code code' : List Instr} {unread unread' : List Register} {i : Instr}

theorem nil : TakesRegisters k 0 [] [] :=
  ⟨rfl, .refl _, everyPoint_nil⟩

theorem unread_subset (h : TakesRegisters k n code unread) : unread ⊆ registersWritten code :=
  fun _ hr => h.read.subset (List.mem_append_right _ hr)

/-- One piece of code behind the other. -/
theorem append (h : TakesRegisters k n code unread) (h' : TakesRegisters (k + n) n' code' unread') :
    TakesRegisters k (n + n') (code ++ code') (unread ++ unread') where
  written := by rw [registersWritten_append, h.written, h'.written, registersFrom_append]
  read := by
    rw [registersRead_append, registersWritten_append]
    -- what the first piece leaves moves in front of what the second one reads
    calc List.Perm (registersRead code ++ registersRead code' ++ (unread ++ unread'))
          (registersRead code ++ (registersRead code' ++ unread) ++ unread') := .of_eq (by simp)
      List.Perm _ (registersRead code ++ (unread ++ registersRead code') ++ unread') :=
        (List.perm_append_comm.append_left _).append_right _
      List.Perm _ ((registersRead code ++ unread) ++ (registersRead code' ++ unread')) :=
        .of_eq (by simp)
      List.Perm _ (registersWritten code ++ registersWritten code') := h.read.append h'.read
  supplied := by
    refine .append h.supplied (h'.supplied.imp ?_)
    intro pre i _ hi r hr
    rw [registersWritten_append]
    exact List.mem_append_right _ (hi r hr)

/-- An instruction behind the code reads only what the code has written. -/
theorem supplied_concat (h : TakesRegisters k n code unread) (hi : i.operands = unread) :
    EveryPoint (fun pre i _ => ∀ r ∈ i.operands, r ∈ registersWritten pre) (code ++ [i]) := by
  refine .append h.supplied (.cons ?_ everyPoint_nil)
  intro r hr
  rw [List.append_nil]
  exact h.unread_subset (hi ▸ hr)

/-- The instruction that reads what is left, and computes the next register from it. -/
theorem compute (h : TakesRegisters k n code unread) (hi : i.operands = unread)
    (ht : i.target? = some ⟨k + n⟩) : TakesRegisters k (n + 1) (code ++ [i]) [⟨k + n⟩] where
  written := by
    rw [registersWritten_append, h.written, ← registersFrom_append]
    exact congrArg _ (List.filterMap_cons_some ht)
  read := by
    have hwritten : registersWritten [i] = [⟨k + n⟩] := List.filterMap_cons_some ht
    have hread : registersRead [i] = unread := hi ▸ List.append_nil _
    rw [registersRead_append, registersWritten_append, hwritten, hread]
    exact h.read.append_right _
  supplied := h.supplied_concat hi

/-- The instruction that reads what is left, and computes nothing. -/
theorem consume (h : TakesRegisters k n code unread) (hi : i.operands = unread)
    (ht : i.target? = none) : TakesRegisters k n (code ++ [i]) [] where
  written := by
    have hwritten : registersWritten [i] = [] := List.filterMap_cons_none ht
    rw [registersWritten_append, hwritten, List.append_nil, h.written]
  read := by
    have hwritten : registersWritten [i] = [] := List.filterMap_cons_none ht
    have hread : registersRead [i] = unread := hi ▸ List.append_nil _
    rw [registersRead_append, registersWritten_append, hwritten, hread, List.append_nil,
      List.append_nil]
    exact h.read
  supplied := h.supplied_concat hi

/-- An instruction that touches no register. -/
theorem silent (h : i.operands = []) (ht : i.target? = none) : TakesRegisters k 0 [i] [] :=
  nil.consume h ht

end TakesRegisters

/-! ## The registers of a program -/

namespace ExprCode

variable {univ : Layer} {ls : List Layer} {k r : Nat} {t : ExprTree} {code : List Instr}

/-- The value of a tree is in the last of its registers. -/
theorem succ_result (h : ExprCode univ ls k t code r) : r + 1 = k + t.visits := by
  induction h with
  | ident bound => rfl
  | int fits => rfl
  | binary arithmetic _ _ ih ih' =>
    unfold ExprTree.visits
    omega
  | neg _ ih =>
    unfold ExprTree.visits
    omega
  | pos _ ih => exact ih
  | paren _ ih => exact ih
  | call builtin _ ih =>
    simp only [ExprTree.visits, ExprTree.visitsAll]
    omega

/-- A tree takes one register a visit, and leaves its value. -/
theorem takesRegisters (h : ExprCode univ ls k t code r) :
    TakesRegisters k t.visits code [⟨r⟩] := by
  induction h with
  | ident bound => exact .compute .nil rfl rfl
  | int fits => exact .compute .nil rfl rfl
  | @binary k a b site op opcode left right code code' arithmetic first second ih ih' =>
    have hb : b + 1 = k + (left.visits + right.visits) := by
      rw [second.succ_result, first.succ_result, Nat.add_assoc]
    rw [first.succ_result] at ih'
    rw [hb]
    exact (ih.append ih').compute rfl rfl
  | neg operand ih =>
    rw [operand.succ_result]
    exact ih.compute rfl rfl
  | pos _ ih => exact ih
  | paren _ ih => exact ih
  | @call k a site f symbol arg code builtin argument ih =>
    have hvisits : (ExprTree.call site f [arg]).visits = arg.visits + 1 := by
      simp [ExprTree.visits, ExprTree.visitsAll]
    rw [hvisits, argument.succ_result]
    exact ih.compute rfl rfl

end ExprCode

namespace InitCode

variable {univ : Layer} {ls : List Layer} {k k' : Nat} {init : Option ExprTree} {v : Value}
  {code : List Instr}

theorem next_eq (h : InitCode univ ls k init code v k') : k' = k + init.elim 0 ExprTree.visits := by
  cases h with
  | zero => rfl
  | expr value => exact value.succ_result

theorem takesRegisters (h : InitCode univ ls k init code v k') :
    TakesRegisters k (init.elim 0 ExprTree.visits) code v.registers := by
  cases h with
  | zero => exact .nil
  | expr value => exact value.takesRegisters

end InitCode

namespace StmtsCode

variable {m : Mangling} {names : NameTable} {univ : Layer} {ls ls' : List Layer} {k k' : Nat}
  {ts : List StmtTree} {code : List Instr}

theorem next_eq (h : StmtsCode m names univ ls k ts code ls' k') :
    k' = k + StmtTree.visitsAll ts := by
  induction h with
  | nil => rfl
  | var value named _ ih =>
    rw [ih, value.next_eq, Nat.add_assoc, StmtTree.visitsAll, StmtTree.visits]
  | assign bound value _ ih =>
    rw [ih, value.succ_result, Nat.add_assoc, StmtTree.visitsAll, StmtTree.visits]
  | block _ _ ih ih' =>
    rw [ih', ih, Nat.add_assoc, StmtTree.visitsAll, StmtTree.visits]
  | expr value _ ih =>
    rw [ih, value.succ_result, Nat.add_assoc, StmtTree.visitsAll, StmtTree.visits]

/-- **Statements take one register a visit, and leave the values of expression statements.** -/
theorem takesRegisters (h : StmtsCode m names univ ls k ts code ls' k') :
    TakesRegisters k (StmtTree.visitsAll ts) code (StmtTree.discardedAll k ts) := by
  induction h with
  | nil => exact .nil
  | @var l ls ls' k k₁ k' site n text init v rest code code' value named next ih =>
    rw [value.next_eq] at ih
    have hslot := value.takesRegisters.append
      (.silent (i := .alloca (m.localSlot text site.span.start)) rfl rfl)
    have hinit := (hslot.consume (i := .store v (m.localSlot text site.span.start))
      (List.append_nil _).symm rfl).append ih
    simpa [StmtTree.visitsAll, StmtTree.visits, StmtTree.discardedAll, StmtTree.discarded]
      using hinit
  | @assign ls ls' k a k' site n symbol t rest code code' bound value next ih =>
    rw [value.succ_result] at ih
    simp only [StmtTree.visitsAll, StmtTree.visits, StmtTree.discardedAll, StmtTree.discarded]
    exact (value.takesRegisters.consume rfl rfl).append ih
  | @block ls inner ls' k k₁ k' site body rest code code' within next ih ih' =>
    rw [within.next_eq] at ih'
    simp only [StmtTree.visitsAll, StmtTree.visits, StmtTree.discardedAll, StmtTree.discarded]
    exact ih.append ih'
  | @expr ls ls' k a k' site t rest code code' value next ih =>
    -- the value stays in the last register of the tree, and nothing reads it
    have ha : k + t.visits - 1 = a := by
      rw [← value.succ_result, Nat.add_sub_cancel]
    rw [value.succ_result] at ih
    simp only [StmtTree.visitsAll, StmtTree.visits, StmtTree.discardedAll, StmtTree.discarded, ha]
    exact value.takesRegisters.append ih

end StmtsCode

/-- Functions take registers as their bodies do, one behind the other. -/
theorem FunctionsCode.takesRegisters {ctx : Lowering.Context} {package : String}
    {univ globals : Layer} {k k' : Nat} {fs : List FunctionDecl} {code : List Instr}
    (h : FunctionsCode ctx package univ globals k fs code k') :
    ∃ ts, (fs.filterMap (·.body)).mapM ctx.nodes.stmtTree = some ts ∧
      TakesRegisters k (StmtTree.visitsAll ts) code (StmtTree.discardedAll k ts) := by
  induction h with
  | nil => exact ⟨[], rfl, .nil⟩
  | declared named bodyless _ ih =>
    obtain ⟨ts, hts, htakes⟩ := ih
    refine ⟨ts, by rw [List.filterMap_cons_none bodyless, hts], ?_⟩
    simpa using TakesRegisters.append (.silent rfl rfl) htakes
  | @defined k k₁ k' f text body t inner rest code code' named hasBody unfolds within next ih =>
    obtain ⟨ts, hts, htakes⟩ := ih
    refine ⟨t :: ts, by simp [List.filterMap_cons_some hasBody, unfolds, hts], ?_⟩
    have hbody : TakesRegisters k t.visits code (t.discarded k) := by
      simpa [StmtTree.visitsAll, StmtTree.discardedAll] using within.takesRegisters
    have hnext : k₁ = k + t.visits := by
      simpa [StmtTree.visitsAll] using within.next_eq
    rw [hnext] at htakes
    have hopen := (TakesRegisters.silent (i := .define (ctx.mangling.function package text))
      rfl rfl).append hbody
    have hends := (hopen.append (.silent (i := .ret) rfl rfl)).append
      (.silent (i := .close) rfl rfl)
    simpa [StmtTree.visitsAll, StmtTree.discardedAll] using hends.append (by simpa using htakes)

theorem Instr.operands_eq_nil {i : Instr} (h : i.isStep = false) : i.operands = [] := by
  cases i with
  | alloca | store | load | binary | call => exact absurd h.symm Bool.false_ne_true
  | global | declare | define | ret | close => rfl

namespace Compiler

variable {c : Compiler} {names : NameTable} {u : SourceUnit} {listing : Listing}

/-- The instructions of a listing take the registers of the bodies. -/
theorem takesRegisters (h : (c.compile names u).outcome = .ok listing) :
    ∃ ts, u.bodies = some ts ∧ TakesRegisters 0 (StmtTree.visitsAll ts) listing.instrs
      (StmtTree.discardedAll 0 ts) := by
  obtain ⟨package, globals, functions, k, hunit, rfl⟩ := compile_translates h
  obtain ⟨ts, hts, htakes⟩ := hunit.functionsCode.takesRegisters
  refine ⟨ts, hts, ?_⟩
  rw [instrs_assemble]
  have hglobals : ∀ gs : List Symbol,
      TakesRegisters 0 0 (gs.map fun s => Instr.global s.label) [] := by
    intro gs
    induction gs with
    | nil => exact .nil
    | cons s gs ih => exact TakesRegisters.append (.silent rfl rfl) ih
  simpa using (hglobals globals).append htakes

/-- **The register discipline of a listing.** Read in order, the registers that its instructions
write are `0, 1, …`, as many as there are visits in the bodies of the functions. A register is
read behind its write in the same function. No register is read twice, and those that are never
read are the values of expression statements. -/
theorem register_discipline (h : (c.compile names u).outcome = .ok listing) :
    ∃ ts, u.bodies = some ts ∧
      listing.instrs.filterMap Instr.target? =
        (List.range (StmtTree.visitsAll ts)).map Register.mk ∧
      (∀ pre i post, listing.instrs = pre ++ i :: post → ∀ r ∈ i.operands,
        ∃ body, Within pre body ∧ ∃ j ∈ body, j.target? = some r) ∧
      (listing.instrs.flatMap Instr.operands).Nodup ∧
      ∀ r : Register, r ∈ StmtTree.discardedAll 0 ts ↔
        r.index < StmtTree.visitsAll ts ∧ r ∉ listing.instrs.flatMap Instr.operands := by
  obtain ⟨ts, hts, htakes⟩ := takesRegisters h
  have hnodup : (registersRead listing.instrs ++ StmtTree.discardedAll 0 ts).Nodup :=
    htakes.read.nodup_iff.mpr (htakes.written ▸ registersFrom_nodup ..)
  obtain ⟨hreads, -, hdisjoint⟩ := List.nodup_append.mp hnodup
  refine ⟨ts, hts, ?_, ?_, hreads, ?_⟩
  · rw [List.range_eq_range']
    exact htakes.written
  · intro pre i post heq r hr
    cases hi : i.isStep with
    | false => exact absurd hr (by simp [Instr.operands_eq_nil hi])
    | true =>
      obtain ⟨package, globals, functions, k, hunit, rfl⟩ := compile_translates h
      obtain ⟨t, k, body, inner, k', pre', post', rest, hcode, hbody, hwithin, -⟩ :=
        hunit.point pre i post heq hi
      have hwritten := hcode.takesRegisters.supplied pre' i post' hbody r hr
      exact ⟨pre', hwithin, List.mem_filterMap.mp hwritten⟩
  · have hwritten : ∀ r : Register, r ∈ registersWritten listing.instrs ↔
        r.index < StmtTree.visitsAll ts := by
      intro r
      rw [htakes.written, mem_registersFrom, Nat.zero_add]
      exact and_iff_right (Nat.zero_le _)
    intro r
    rw [← hwritten]
    constructor
    · intro hr
      exact ⟨htakes.unread_subset hr, fun hread => hdisjoint r hread r hr rfl⟩
    · rintro ⟨hr, hunread⟩
      exact (List.mem_append.mp (htakes.read.mem_iff.mpr hr)).resolve_left hunread

/-- Twelve registers, of which those with the results of the two calls are never read. -/
theorem register_discipline_counter :
    ∃ listing, (({} : Compiler).compile Counter.names Counter.program).outcome = .ok listing ∧
      listing.instrs.filterMap Instr.target? = (List.range 12).map Register.mk ∧
      (listing.instrs.flatMap Instr.operands).Nodup ∧
      ∀ r : Register, r ∈ [⟨5⟩, ⟨8⟩] ↔
        r.index < 12 ∧ r ∉ listing.instrs.flatMap Instr.operands := by
  obtain ⟨listing, h⟩ := Counter.program_compiles
  obtain ⟨ts, hts, hwritten, -, hreads, hunread⟩ := register_discipline h
  have hcount : Counter.program.bodies.map (fun ts =>
      (StmtTree.visitsAll ts, StmtTree.discardedAll 0 ts)) =
      some (12, [⟨5⟩, ⟨8⟩]) := by decide +kernel
  rw [hts, Option.map_some, Option.some.injEq, Prod.mk.injEq] at hcount
  rw [hcount.1] at hwritten
  rw [hcount.1, hcount.2] at hunread
  exact ⟨listing, h, hwritten, hreads, hunread⟩

end Compiler

end RegisterCode
