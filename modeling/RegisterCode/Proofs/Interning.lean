import RegisterCode.Naming.Pool
import RegisterCode.Proofs.UnitCode

/-!
# What is interned

Interning strings one after the other appends those that are new, each where it first occurs
(`Inverse.internAll_strings`). A name is the place of the first occurrence of its string, so names
compare as these places do (`idxOf_eraseDups_lt_iff`).

Several handles may stand for one table, and there may be several tables. A run of operations on
a pool makes a list of calls, each of which interns one string in one table. In every run map and
list of every table stay inverse to each other (`Sound.run`), the table of a handle depends on the
calls on that table only (`Sound.tableAt_run`), and a handle never changes its table
(`standsFor`).

A compilation interns the names of the builtin functions and nothing else.

Results:
* `interning_discipline`: what a table holds, what names are worth, what a call changes, and which
  tables handles stand for.
* `Compiler.compile_again`: what compilation does to the names, and that it can be repeated.

Out of scope: operations that overlap in time. A run is one operation after the other.
-/

namespace RegisterCode

/-! ## First occurrences -/

section FirstOccurrences

variable {α : Type} [DecidableEq α]

/-- Leaving out other elements keeps the order of first occurrences. -/
theorem idxOf_filter_lt_iff {keep : α → Bool} {a b : α} (ha : keep a = true) (hb : keep b = true)
    (l : List α) : (l.filter keep).idxOf a < (l.filter keep).idxOf b ↔ l.idxOf a < l.idxOf b := by
  induction l with
  | nil => simp
  | cons x l ih =>
    by_cases hxa : x = a
    · subst hxa
      by_cases hxb : x = b
      · simp [hxb]
      · simp [List.filter_cons_of_pos ha, hxb]
    · by_cases hxb : x = b
      · subst hxb
        simp [List.filter_cons_of_pos hb, hxa]
      · by_cases hx : keep x = true
        · simpa [List.filter_cons_of_pos hx, List.idxOf_cons_ne _ hxa, List.idxOf_cons_ne _ hxb]
            using ih
        · simpa [List.filter_cons_of_neg hx, List.idxOf_cons_ne _ hxa, List.idxOf_cons_ne _ hxb]
            using ih

/-- Leaving out repetitions keeps the order of first occurrences. -/
theorem idxOf_eraseDups_lt_iff (a b : α) :
    ∀ l : List α, l.eraseDups.idxOf a < l.eraseDups.idxOf b ↔ l.idxOf a < l.idxOf b
  | [] => by simp
  | x :: l => by
    -- `eraseDups` goes on with what is left of the tail, so the induction is on the length
    have ih := idxOf_eraseDups_lt_iff a b (l.filter fun y => !y == x)
    rw [List.eraseDups_cons]
    by_cases hxa : x = a
    · subst hxa
      by_cases hxb : x = b
      · simp [hxb]
      · simp [List.idxOf_cons_ne _ hxb]
    · by_cases hxb : x = b
      · subst hxb
        simp
      · rw [List.idxOf_cons_ne _ hxa, List.idxOf_cons_ne _ hxb, List.idxOf_cons_ne _ hxa,
          List.idxOf_cons_ne _ hxb, Nat.succ_lt_succ_iff, Nat.succ_lt_succ_iff, ih]
        exact idxOf_filter_lt_iff (by simp [Ne.symm hxa]) (by simp [Ne.symm hxb]) l
termination_by l => l.length
decreasing_by
  have := List.length_filter_le (fun y => !y == x) l
  simp only [List.length_cons]
  omega

end FirstOccurrences

/-! ## Tables -/

namespace InternTable

variable {t : InternTable} {s : String} {n : Name}

/-- The map gives a string the place where the list holds it first. -/
theorem Inverse.number?_eq (h : t.Inverse) (s : String) :
    t.number? s = if s ∈ t.strings then some (t.strings.idxOf s) else none := by
  by_cases hs : s ∈ t.strings
  · have hlt := List.idxOf_lt_length_iff.mpr hs
    rw [if_pos hs, h, List.getElem?_eq_getElem hlt]
    exact congrArg some (List.getElem_idxOf _)
  · rw [if_neg hs, Option.eq_none_iff_forall_ne_some]
    intro i hi
    exact hs (List.mem_of_getElem? ((h s i).mp hi))

/-- A string gets the name that it has in the table, or would have at its end. -/
theorem Inverse.intern_eq (h : t.Inverse) (s : String) :
    t.intern s = (⟨t.strings.idxOf s⟩, if s ∈ t.strings then t else t.push s) := by
  rw [InternTable.intern, h.number?_eq]
  by_cases hs : s ∈ t.strings
  · simp only [if_pos hs]
  · simp only [if_neg hs, List.idxOf_eq_length hs]

theorem internAll_cons (t : InternTable) (s : String) (ss : List String) :
    t.internAll (s :: ss) =
      ((t.intern s).1 :: ((t.intern s).2.internAll ss).1, ((t.intern s).2.internAll ss).2) := rfl

theorem internAll_append (t : InternTable) (ss rs : List String) :
    (t.internAll (ss ++ rs)).2 = ((t.internAll ss).2.internAll rs).2 := by
  induction ss generalizing t with
  | nil => rfl
  | cons s ss ih => exact ih (t.intern s).2

/-- **Interning several strings appends those that are new, each once, where it first occurs.** -/
theorem Inverse.internAll_strings (h : t.Inverse) (ss : List String) :
    (t.internAll ss).2.strings = t.strings ++ (ss.filter (· ∉ t.strings)).eraseDups := by
  induction ss generalizing t with
  | nil => simp [InternTable.internAll]
  | cons s ss ih =>
    rw [internAll_cons, ih (h.intern s), h.intern_eq]
    by_cases hs : s ∈ t.strings
    · simp [hs]
    · have hnew : ss.filter (fun r => r ∉ t.strings ++ [s]) =
          (ss.filter (· ∉ t.strings)).filter fun r => !r == s := by
        rw [List.filter_filter]
        refine List.filter_congr fun r _ => ?_
        by_cases hr : r = s <;> simp [hr, hs]
      simp only [if_neg hs, InternTable.push]
      rw [hnew, List.filter_cons_of_pos (by simp [hs]), List.eraseDups_cons, List.append_assoc]
      rfl

/-- Interning what is there already changes nothing. -/
theorem Inverse.internAll_of_mem (h : t.Inverse) {ss : List String}
    (hss : ∀ s ∈ ss, s ∈ t.strings) : (t.internAll ss).2 = t := by
  induction ss with
  | nil => rfl
  | cons s ss ih =>
    have hs : (t.intern s).2 = t := by rw [h.intern_eq, if_pos (hss s List.mem_cons_self)]
    rw [internAll_cons, hs]
    exact ih fun r hr => hss r (List.mem_cons_of_mem s hr)

/-- `n` is the name of `s`. -/
structure Names (t : InternTable) (s : String) (n : Name) : Prop where
  mem : s ∈ t.strings
  index_eq : n.index = t.strings.idxOf s

theorem Names.lookup (h : t.Names s n) : t.lookup n = .ok s := by
  have hlt := List.idxOf_lt_length_iff.mpr h.mem
  rw [lookup_eq_ok_iff, text?, h.index_eq, List.getElem?_eq_getElem hlt]
  exact congrArg some (List.getElem_idxOf _)

/-- A string keeps its name, whatever is interned. -/
theorem Names.internAll (h : t.Names s n) (ht : t.Inverse) (ss : List String) :
    (t.internAll ss).2.Names s n where
  mem := by
    rw [ht.internAll_strings]
    exact List.mem_append_left _ h.mem
  index_eq := by rw [ht.internAll_strings, List.idxOf_append_of_mem h.mem, h.index_eq]

theorem Inverse.intern_names (h : t.Inverse) (s : String) :
    (t.intern s).2.Names s (t.intern s).1 := by
  rw [h.intern_eq]
  by_cases hs : s ∈ t.strings
  · rw [if_pos hs]
    exact ⟨hs, rfl⟩
  · rw [if_neg hs]
    refine ⟨by simp [InternTable.push], ?_⟩
    rw [InternTable.push, List.idxOf_append_of_notMem hs, List.idxOf_eq_length hs]
    simp

/-- Every string that is interned gets the name that it has in the end. -/
theorem Inverse.internAll_fst (h : t.Inverse) (ss : List String) :
    (t.internAll ss).1 = ss.map fun s => ⟨(t.internAll ss).2.strings.idxOf s⟩ := by
  induction ss generalizing t with
  | nil => rfl
  | cons s ss ih =>
    have hs := ((h.intern_names s).internAll (h.intern s) ss).index_eq
    rw [internAll_cons, ih (h.intern s), List.map_cons]
    exact congrArg (· :: _) (congrArg Name.mk hs)

/-- Interning the same strings again gives the same names and adds nothing. -/
theorem Inverse.internAll_again (h : t.Inverse) (ss : List String) :
    (t.internAll ss).2.internAll ss = t.internAll ss := by
  have hold : ∀ s ∈ ss, s ∈ (t.internAll ss).2.strings := by
    intro s hs
    by_cases ht : s ∈ t.strings <;> simp [h.internAll_strings, List.mem_eraseDups, hs, ht]
  have htable := (h.internAll ss).internAll_of_mem hold
  refine Prod.ext ?_ htable
  rw [(h.internAll ss).internAll_fst, h.internAll_fst, htable]

/-- Two names are equal if and only if their strings are. -/
theorem Names.eq_iff {s' : String} {n' : Name} (h : t.Names s n) (h' : t.Names s' n') :
    n = n' ↔ s = s' := by
  constructor
  · rintro rfl
    exact Except.ok.inj (h.lookup.symm.trans h'.lookup)
  · rintro rfl
    cases n
    cases n'
    exact congrArg Name.mk (h.index_eq.trans h'.index_eq.symm)

/-- A name is out of bounds if and only if the table is too small for it. -/
theorem lookup_eq_error_iff : (∃ f, t.lookup n = .error f) ↔ t.size ≤ n.index := by
  have hnone : t.text? n = none ↔ t.size ≤ n.index := List.getElem?_eq_none_iff
  rw [← hnone]
  unfold lookup
  cases t.text? n <;> simp

end InternTable

theorem NameTable.internAll_again (t : NameTable) (ss : List String) :
    (t.internAll ss).2.internAll ss = t.internAll ss := by
  have hagain := t.inverse.internAll_again ss
  simp only [internAll, hagain]

/-! ## Pools -/

/-- What the users of a pool can do. -/
inductive PoolOp where
  | intern (handle : Nat) (text : String)
  | share (handle : Nat)
  | addTable

/-- A call that interned a string. -/
structure Interning where
  /-- The position of the table. -/
  table : Nat
  /-- The string. -/
  text : String
  /-- The name that came back. -/
  name : Name
  deriving DecidableEq

/-- The strings that were interned in one of the tables, first to last. -/
def textsOn (calls : List Interning) (slot : Nat) : List String :=
  (calls.filter (·.table = slot)).map (·.text)

theorem textsOn_append (calls calls' : List Interning) (slot : Nat) :
    textsOn (calls ++ calls') slot = textsOn calls slot ++ textsOn calls' slot := by
  simp [textsOn]

namespace NamePool

/-- The pool after an operation; a handle that does not exist is no use. -/
def perform (p : NamePool) : PoolOp → NamePool
  | .intern handle text => (p.intern? handle text).elim p Prod.snd
  | .share handle => (p.share? handle).elim p Prod.snd
  | .addTable => p.addTable.2

/-- The call that an operation makes. -/
def call? (p : NamePool) : PoolOp → Option Interning
  | .intern handle text => do
    let slot ← p.handles[handle]?
    let (n, _) ← p.intern? handle text
    return ⟨slot, text, n⟩
  | .share _ | .addTable => none

/-- The calls that operations make, and the pool after them. -/
def run (p : NamePool) : List PoolOp → List Interning × NamePool
  | [] => ([], p)
  | op :: ops =>
    let (calls, q) := (p.perform op).run ops
    ((p.call? op).toList ++ calls, q)

/-- The handle stands for the table at this position, whatever is done later. -/
def StandsFor (p : NamePool) (handle slot : Nat) : Prop :=
  ∀ later, (p.run later).2.handles[handle]? = some slot

/-- The handles that there are stand for the same tables in `p'` as in `p`, and these are
unchanged. -/
def Keeps (p p' : NamePool) : Prop :=
  ∀ handle slot, p.handles[handle]? = some slot →
    p'.StandsFor handle slot ∧ p'.table? handle = p.table? handle

/-- Every handle stands for a table, and map and list of every table are inverse to each other. -/
structure Sound (p : NamePool) : Prop where
  handles_lt : ∀ slot ∈ p.handles, slot < p.tables.length
  inverse : ∀ t ∈ p.tables, t.Inverse

/-- The table at a position; where there is none yet, a new one. -/
def tableAt (p : NamePool) (slot : Nat) : InternTable := p.tables[slot]?.getD .initial

variable {p : NamePool} {handle slot : Nat} {ops : List PoolOp}

/-! ### Handles -/

/-- An operation keeps the handles and what they stand for. -/
theorem handles_perform (p : NamePool) (op : PoolOp) : p.handles <+: (p.perform op).handles := by
  cases op with
  | intern handle s =>
    simp only [perform, intern?]
    cases p.handles[handle]? with
    | none => exact List.prefix_rfl
    | some slot => cases hslot : p.tables[slot]? <;> simp [hslot]
  | share handle =>
    simp only [perform, share?]
    cases p.handles[handle]? with
    | none => exact List.prefix_rfl
    | some slot => exact List.prefix_append _ _
  | addTable => exact List.prefix_append _ _

theorem handles_run (p : NamePool) (ops : List PoolOp) : p.handles <+: (p.run ops).2.handles := by
  induction ops generalizing p with
  | nil => exact List.prefix_rfl
  | cons op ops ih => exact (p.handles_perform op).trans (ih (p.perform op))

theorem handle_of_isPrefix {p' : NamePool} (h : p.handles <+: p'.handles)
    (hh : p.handles[handle]? = some slot) : p'.handles[handle]? = some slot := by
  obtain ⟨more, hmore⟩ := h
  rw [← hmore, List.getElem?_append_left (List.getElem?_eq_some_iff.mp hh).1, hh]

/-- **A handle never changes its table.** -/
theorem standsFor (hh : p.handles[handle]? = some slot) : p.StandsFor handle slot :=
  fun later => handle_of_isPrefix (p.handles_run later) hh

/-- Handles and tables that are added change nothing for the handles that there are. -/
theorem keeps_of_append {p' : NamePool} (hhandles : p.handles <+: p'.handles)
    (htables : ∀ slot ∈ p.handles, p'.tables[slot]? = p.tables[slot]?) : p.Keeps p' := by
  intro handle slot hh
  have hh' : p'.handles[handle]? = some slot := handle_of_isPrefix hhandles hh
  refine ⟨standsFor hh', ?_⟩
  rw [table?, table?, hh, hh', Option.bind_some, Option.bind_some,
    htables slot (List.mem_of_getElem? hh)]

/-! ### One operation -/

theorem initial_sound : initial.Sound where
  handles_lt := by decide
  inverse := by simp [initial, InternTable.initial_inverse]

theorem tableAt_initial (slot : Nat) : initial.tableAt slot = .initial := by
  cases slot <;> rfl

theorem Sound.tables_eq (h : p.Sound) (hh : p.handles[handle]? = some slot) :
    p.tables[slot]? = some (p.tableAt slot) := by
  rw [tableAt, List.getElem?_eq_getElem (h.handles_lt slot (List.mem_of_getElem? hh))]
  rfl

theorem Sound.tableAt_inverse (h : p.Sound) (slot : Nat) : (p.tableAt slot).Inverse := by
  unfold tableAt
  cases ht : p.tables[slot]? with
  | none => exact InternTable.initial_inverse
  | some t => exact h.inverse t (List.mem_of_getElem? ht)

theorem Sound.table?_eq (h : p.Sound) (hh : p.handles[handle]? = some slot) :
    p.table? handle = some (p.tableAt slot) := by
  rw [table?, hh, Option.bind_some, h.tables_eq hh]

theorem Sound.intern?_eq (h : p.Sound) (hh : p.handles[handle]? = some slot) (s : String) :
    p.intern? handle s = some (((p.tableAt slot).intern s).1,
      { p with tables := p.tables.set slot ((p.tableAt slot).intern s).2 }) := by
  simp [intern?, hh, h.tables_eq hh]

theorem intern?_eq_none (hh : p.handles[handle]? = none) (s : String) :
    p.intern? handle s = none := by
  simp [intern?, hh]

/-- What an operation does to the table at a position: it interns there what is called for. -/
theorem Sound.tableAt_perform (h : p.Sound) (op : PoolOp) (slot : Nat) :
    (p.perform op).tableAt slot =
      ((p.tableAt slot).internAll (textsOn (p.call? op).toList slot)).2 := by
  cases op with
  | intern handle s =>
    cases hh : p.handles[handle]? with
    | none =>
      simp only [perform, call?, intern?_eq_none hh, hh]
      rfl
    | some slot' =>
      simp only [perform, call?, h.intern?_eq hh, hh]
      have hlt : slot' < p.tables.length := h.handles_lt slot' (List.mem_of_getElem? hh)
      by_cases heq : slot' = slot
      · subst heq
        simp [tableAt, textsOn, hlt, InternTable.internAll]
      · simp [tableAt, textsOn, heq, InternTable.internAll]
  | share handle =>
    cases hh : p.handles[handle]? with
    | none => simp [perform, share?, hh, call?, textsOn, InternTable.internAll]
    | some slot' => simp [perform, share?, hh, call?, textsOn, InternTable.internAll, tableAt]
  | addTable =>
    simp only [perform, addTable, tableAt, call?, Option.toList_none, textsOn, List.filter_nil,
      List.map_nil, InternTable.internAll]
    by_cases hlt : slot < p.tables.length
    · rw [List.getElem?_append_left hlt]
    · rw [List.getElem?_eq_none (Nat.not_lt.mp hlt), List.getElem?_append_right (Nat.not_lt.mp hlt)]
      cases slot - p.tables.length <;> rfl

/-- **An operation keeps a pool sound.** -/
theorem Sound.perform (h : p.Sound) (op : PoolOp) : (p.perform op).Sound := by
  cases op with
  | intern handle s =>
    cases hh : p.handles[handle]? with
    | none =>
      simp only [NamePool.perform, intern?_eq_none hh]
      exact h
    | some slot =>
      simp only [NamePool.perform, h.intern?_eq hh]
      refine ⟨fun slot' hslot' => by simpa using h.handles_lt slot' hslot', fun t ht => ?_⟩
      rcases List.mem_or_eq_of_mem_set ht with hold | rfl
      · exact h.inverse t hold
      · exact (h.tableAt_inverse slot).intern s
  | share handle =>
    cases hh : p.handles[handle]? with
    | none =>
      simp only [NamePool.perform, share?, hh]
      exact h
    | some slot =>
      simp only [NamePool.perform, share?, hh]
      refine ⟨fun slot' hslot' => ?_, h.inverse⟩
      rcases List.mem_append.mp hslot' with hold | hnew
      · exact h.handles_lt slot' hold
      · exact h.handles_lt slot' (List.mem_of_getElem? (List.mem_singleton.mp hnew ▸ hh))
  | addTable =>
    refine ⟨fun slot' hslot' => ?_, fun t ht => ?_⟩
    · have hlength : p.addTable.2.tables.length = p.tables.length + 1 := by simp [addTable]
      simp only [NamePool.perform, hlength]
      rcases List.mem_append.mp hslot' with hold | hnew
      · exact Nat.lt_succ_of_lt (h.handles_lt slot' hold)
      · exact List.mem_singleton.mp hnew ▸ Nat.lt_succ_self _
    · rcases List.mem_append.mp ht with hold | hnew
      · exact h.inverse t hold
      · exact List.mem_singleton.mp hnew ▸ InternTable.initial_inverse

/-- The name that a call gives belongs to its string. -/
theorem Sound.names_perform (h : p.Sound) {op : PoolOp} {call : Interning}
    (hcall : p.call? op = some call) :
    ((p.perform op).tableAt call.table).Names call.text call.name := by
  cases op with
  | intern handle s =>
    cases hh : p.handles[handle]? with
    | none => simp [call?, hh] at hcall
    | some slot =>
      obtain rfl : ⟨slot, s, ((p.tableAt slot).intern s).1⟩ = call := by
        simpa [call?, hh, h.intern?_eq hh] using hcall
      rw [h.tableAt_perform, hcall]
      simpa [textsOn, InternTable.internAll] using (h.tableAt_inverse slot).intern_names s
  | share handle => cases hcall
  | addTable => cases hcall

/-! ### Runs -/

/-- **The table at a position depends on the calls on that table only.** -/
theorem Sound.tableAt_run (h : p.Sound) (ops : List PoolOp) (slot : Nat) :
    (p.run ops).2.tableAt slot =
      ((p.tableAt slot).internAll (textsOn (p.run ops).1 slot)).2 := by
  induction ops generalizing p with
  | nil => rfl
  | cons op ops ih =>
    have hcalls : (p.run (op :: ops)).1 = (p.call? op).toList ++ ((p.perform op).run ops).1 := rfl
    have hpool : (p.run (op :: ops)).2 = ((p.perform op).run ops).2 := rfl
    rw [hpool, hcalls, textsOn_append, InternTable.internAll_append, ih (h.perform op),
      h.tableAt_perform]

/-- **In every run map and list of every table stay inverse to each other.** -/
theorem Sound.run (h : p.Sound) (ops : List PoolOp) : (p.run ops).2.Sound := by
  induction ops generalizing p with
  | nil => exact h
  | cons op ops ih => exact ih (h.perform op)

/-- **The name that a call gave belongs to its string ever after.** -/
theorem Sound.names_run (h : p.Sound) {call : Interning} (hcall : call ∈ (p.run ops).1) :
    ((p.run ops).2.tableAt call.table).Names call.text call.name := by
  induction ops generalizing p with
  | nil => exact absurd hcall List.not_mem_nil
  | cons op ops ih =>
    have hsound := h.perform op
    rcases List.mem_append.mp hcall with hnow | hlater
    · have hnamed := h.names_perform (Option.mem_toList.mp hnow)
      have hrun : (p.run (op :: ops)).2 = ((p.perform op).run ops).2 := rfl
      rw [hrun, hsound.tableAt_run]
      exact hnamed.internAll (hsound.tableAt_inverse _) _
    · exact ih hsound hlater

/-! ### What comes back -/

/-- **A call hands out the place of its string in the table, which grows only if the string is new.
All handles on that table see it, the others do not, and the name keeps its string.** -/
theorem Sound.intern (h : p.Sound) (hh : p.handles[handle]? = some slot) (s : String) :
    ∃ n t p', p.intern? handle s = some (n, p') ∧
      t.strings = (if s ∈ (p.tableAt slot).strings then (p.tableAt slot).strings
        else (p.tableAt slot).strings ++ [s]) ∧
      n.index = t.strings.idxOf s ∧
      (∀ other slot', p.handles[other]? = some slot' →
        p'.table? other = if slot' = slot then some t else p.table? other) ∧
      ∀ later, ∃ t', (p'.run later).2.table? handle = some t' ∧ t'.lookup n = .ok s := by
  have hnamed := (h.tableAt_inverse slot).intern_names s
  have hlt : slot < p.tables.length := h.handles_lt slot (List.mem_of_getElem? hh)
  have hstep : p.perform (.intern handle s) =
      { p with tables := p.tables.set slot ((p.tableAt slot).intern s).2 } := by
    simp only [NamePool.perform, h.intern?_eq hh]
    rfl
  refine ⟨_, ((p.tableAt slot).intern s).2, _, h.intern?_eq hh s, ?_, hnamed.index_eq, ?_, ?_⟩
  · rw [(h.tableAt_inverse slot).intern_eq]
    split <;> rfl
  · intro other slot' hother
    by_cases heq : slot' = slot
    · simp [table?, hother, heq, hlt]
    · simp [table?, hother, heq, Ne.symm heq]
  · intro later
    rw [← hstep]
    have hsound := h.perform (.intern handle s)
    have hkept : (p.perform (.intern handle s)).StandsFor handle slot := by
      rw [hstep]
      exact standsFor hh
    refine ⟨_, (hsound.run later).table?_eq (hkept later), ?_⟩
    have hcall : p.call? (.intern handle s) =
        some ⟨slot, s, ((p.tableAt slot).intern s).1⟩ := by
      simp [call?, hh, h.intern?_eq hh]
    have hnow := h.names_perform hcall
    rw [hsound.tableAt_run]
    exact (hnow.internAll (hsound.tableAt_inverse slot) _).lookup

/-- **A further handle stands for the same table.** -/
theorem Sound.share (h : p.Sound) (hh : p.handles[handle]? = some slot) :
    ∃ other p', p.share? handle = some (other, p') ∧ p.handles[other]? = none ∧ p.Keeps p' ∧
      p'.StandsFor other slot ∧ p'.table? other = some (p.tableAt slot) := by
  have hshare : p.share? handle =
      some (p.handles.length, { p with handles := p.handles ++ [slot] }) := by
    simp [share?, hh]
  refine ⟨_, _, hshare, by simp, keeps_of_append (List.prefix_append _ _) fun _ _ => rfl,
    standsFor (by simp), ?_⟩
  simp [table?, h.tables_eq hh]

/-- **A handle on a new table stands for a table that no other handle stands for.** -/
theorem Sound.addTable (h : p.Sound) :
    ∃ other fresh p', p.addTable = (other, p') ∧ p.handles[other]? = none ∧ p.Keeps p' ∧
      fresh ∉ p.handles ∧ p'.StandsFor other fresh ∧ p'.table? other = some .initial := by
  refine ⟨_, p.tables.length, _, rfl, by simp, keeps_of_append (List.prefix_append _ _) ?_, ?_,
    standsFor (by simp), by simp [table?]⟩
  · intro slot hslot
    exact List.getElem?_append_left (h.handles_lt slot hslot)
  · intro hmem
    exact absurd (h.handles_lt _ hmem) (Nat.lt_irrefl _)

end NamePool

/-- What a table holds after a run: the empty string, then what was interned. -/
theorem strings_run (ops : List PoolOp) (slot : Nat) :
    ((NamePool.initial.run ops).2.tableAt slot).strings =
      ("" :: textsOn (NamePool.initial.run ops).1 slot).eraseDups := by
  rw [NamePool.initial_sound.tableAt_run, NamePool.tableAt_initial,
    InternTable.initial_inverse.internAll_strings, List.eraseDups_cons]
  have hkeep : ∀ s : String, decide (s ∉ InternTable.initial.strings) = !s == "" := by
    intro s
    by_cases hs : s = "" <;> simp [InternTable.initial, hs]
  simp only [hkeep]
  rfl

/-- **What interning does.** After any operations on the handles of a pool, the table of a handle
holds the empty string and behind it the strings that were interned in this table, through whatever
handles, each once and in the order of their first interning. Its map and its list are inverse to
each other: the map gives a string the number of a name just if the name is looked up to the string.
A name is out of bounds if and only if the table is too small. A name that was handed out is looked
up to its string; two of them are equal if and only if their strings are, and they are ordered by
first interning. A further call hands out the place of its string, and the table grows only if the
string is new; the handles on this table see it, those on other tables do not, and the name keeps
its string ever after. The handle stands for its table ever after. A handle that is made from it
stands for the same table, and a handle on a new table for one that only holds the empty string and
that no handle stood for before; both leave the other handles and their tables as they are. -/
theorem interning_discipline (ops : List PoolOp) {calls : List Interning} {p : NamePool}
    {handle slot : Nat} (h : NamePool.initial.run ops = (calls, p))
    (hh : p.handles[handle]? = some slot) :
    ∃ t, p.table? handle = some t ∧
      t.strings = "" :: ((textsOn calls slot).filter (· ≠ "")).eraseDups ∧
      (∀ s n, t.number? s = some n.index ↔ t.lookup n = .ok s) ∧
      (∀ n, (∃ f, t.lookup n = .error f) ↔ t.size ≤ n.index) ∧
      (∀ call ∈ calls, call.table = slot → t.lookup call.name = .ok call.text ∧
        ∀ call' ∈ calls, call'.table = slot →
          (call.name = call'.name ↔ call.text = call'.text) ∧
          compare call.name call'.name =
            compare (("" :: textsOn calls slot).idxOf call.text)
              (("" :: textsOn calls slot).idxOf call'.text)) ∧
      (∀ s, ∃ n t' p', p.intern? handle s = some (n, p') ∧
        t'.strings = (if s ∈ t.strings then t.strings else t.strings ++ [s]) ∧
        n.index = t'.strings.idxOf s ∧
        (∀ other slot', p.handles[other]? = some slot' →
          p'.table? other = if slot' = slot then some t' else p.table? other) ∧
        ∀ later, ∃ t'', (p'.run later).2.table? handle = some t'' ∧ t''.lookup n = .ok s) ∧
      p.StandsFor handle slot ∧
      (∃ other p', p.share? handle = some (other, p') ∧ p.handles[other]? = none ∧ p.Keeps p' ∧
        p'.StandsFor other slot ∧ p'.table? other = some t) ∧
      ∃ other fresh p', p.addTable = (other, p') ∧ p.handles[other]? = none ∧ p.Keeps p' ∧
        fresh ∉ p.handles ∧ p'.StandsFor other fresh ∧ p'.table? other = some .initial := by
  have hsound : p.Sound := by
    have hrun := NamePool.initial_sound.run ops
    rwa [h] at hrun
  have hinverse := hsound.tableAt_inverse slot
  have hstrings : (p.tableAt slot).strings = ("" :: textsOn calls slot).eraseDups := by
    have hrun := strings_run ops slot
    rwa [h] at hrun
  have hnames : ∀ call ∈ calls, call.table = slot →
      (p.tableAt slot).Names call.text call.name := by
    rintro call hcall rfl
    have hmem : call ∈ (NamePool.initial.run ops).1 := by rwa [h]
    have hrun := NamePool.initial_sound.names_run hmem
    rwa [h] at hrun
  refine ⟨p.tableAt slot, hsound.table?_eq hh, ?_, fun s n => ?_,
    fun n => InternTable.lookup_eq_error_iff, ?_, hsound.intern hh, NamePool.standsFor hh,
    hsound.share hh, hsound.addTable⟩
  · rw [hstrings, List.eraseDups_cons]
    congr 2
    refine List.filter_congr fun s _ => ?_
    by_cases hs : s = "" <;> simp [hs]
  · rw [InternTable.lookup_eq_ok_iff]
    exact hinverse s n.index
  · intro call hcall hslot
    have hnamed := hnames call hcall hslot
    refine ⟨hnamed.lookup, fun call' hcall' hslot' => ?_⟩
    have hnamed' := hnames call' hcall' hslot'
    refine ⟨hnamed.eq_iff hnamed', ?_⟩
    have hindex : compare call.name call'.name = compare call.name.index call'.name.index := rfl
    rw [hindex, hnamed.index_eq, hnamed'.index_eq, hstrings, Nat.compare_eq_ite_lt,
      Nat.compare_eq_ite_lt]
    simp only [idxOf_eraseDups_lt_iff]

/-- Handles `0` and `1` share a table, handle `2` has one of its own, in which `"z"` is no news. A
handle that is made from handle `1` sees what handle `0` sees. -/
theorem interning_discipline_shared :
    ∃ calls p t, NamePool.initial.run [.intern 0 "x", .share 0, .addTable, .intern 2 "z",
        .intern 1 "y", .intern 0 "", .intern 1 "x"] = (calls, p) ∧
      p.handles[1]? = some 0 ∧ p.table? 1 = some t ∧ t.strings = ["", "x", "y"] ∧
      t.number? "y" = some 2 ∧ t.lookup ⟨2⟩ = .ok "y" ∧
      (∃ f, t.lookup ⟨3⟩ = .error f) ∧
      ⟨0, "x", ⟨1⟩⟩ ∈ calls ∧ ⟨0, "y", ⟨2⟩⟩ ∈ calls ∧ t.lookup ⟨1⟩ = .ok "x" ∧
      compare (⟨1⟩ : Name) ⟨2⟩ = .lt ∧
      (∃ n t' p', p.intern? 1 "z" = some (n, p') ∧ t'.strings = ["", "x", "y", "z"] ∧
        n.index = 3 ∧ p'.table? 0 = some t' ∧ p'.table? 2 = p.table? 2) ∧
      (∃ other p', p.share? 1 = some (other, p') ∧ p'.StandsFor other 0 ∧ p'.StandsFor 0 0 ∧
        p'.table? other = p.table? 0) ∧
      ∃ other fresh p', p.addTable = (other, p') ∧ fresh ∉ [0, 0, 1] ∧
        p'.StandsFor other fresh := by
  obtain ⟨t, ht, hstrings, hinverse, hbounds, hnames, hnext, -, hshare, hadd⟩ :=
    @interning_discipline [.intern 0 "x", .share 0, .addTable, .intern 2 "z", .intern 1 "y",
      .intern 0 "", .intern 1 "x"] _ _ 1 0 rfl rfl
  have hstrings : t.strings = ["", "x", "y"] := hstrings.trans (by decide)
  obtain ⟨hx, hlater⟩ := hnames ⟨0, "x", ⟨1⟩⟩ (by decide) rfl
  obtain ⟨hy, -⟩ := hnames ⟨0, "y", ⟨2⟩⟩ (by decide) rfl
  obtain ⟨n, t', p', hcall, hgrown, hn, hsees, -⟩ := hnext "z"
  have hgrown : t'.strings = ["", "x", "y", "z"] := by
    rw [hgrown, hstrings]
    decide
  obtain ⟨other, q, hother, -, hkeeps, hstands, htable⟩ := hshare
  obtain ⟨other', fresh, q', hother', -, -, hfresh, hstands', -⟩ := hadd
  refine ⟨_, _, t, rfl, rfl, ht, hstrings, (hinverse "y" ⟨2⟩).mpr hy, hy, (hbounds ⟨3⟩).mpr ?_,
    by decide, by decide, hx, (hlater ⟨0, "y", ⟨2⟩⟩ (by decide) rfl).2.trans (by decide),
    ⟨n, t', p', hcall, hgrown, ?_, (hsees 0 0 rfl).trans (if_pos rfl),
      (hsees 2 1 rfl).trans (if_neg (by decide))⟩,
    ⟨other, q, hother, hstands, (hkeeps 0 0 rfl).1, htable.trans ht.symm⟩,
    ⟨other', fresh, q', hother', hfresh, hstands'⟩⟩
  · simp [InternTable.size, hstrings]
  · rw [hn, hgrown]
    decide

/-! ## Compilation -/

namespace Compiler

variable {c : Compiler} {names : NameTable} {u : SourceUnit}

theorem compile_names {package : String} (h : names.lookup u.package = .ok package) :
    (c.compile names u).names = c.tableWithBuiltins names := by
  unfold compile
  rw [h]
  dsimp only
  split <;> rfl

theorem builtinSymbols_again (c : Compiler) (names : NameTable) :
    c.builtinSymbols (c.tableWithBuiltins names) = c.builtinSymbols names := by
  unfold tableWithBuiltins builtinSymbols
  dsimp only
  rw [NameTable.internAll_again]

/-- **Compilation adds the names of the builtin functions and can be repeated.** Whatever the
outcome is, the table of names afterwards is the table before and behind it those names of builtin
functions that it did not hold, each once and in the order of their first occurrence; all names
keep their texts. Compiling the unit once more, with these names, has the same outcome, the same
events and adds nothing. -/
theorem compile_again (c : Compiler) (hp : u.package.index < names.size) :
    (c.compile names u).names.strings =
      names.strings ++ (c.builtins.functions.filter (· ∉ names.strings)).eraseDups ∧
    (∀ n s, names.lookup n = .ok s → (c.compile names u).names.lookup n = .ok s) ∧
    c.compile (c.compile names u).names u = c.compile names u := by
  obtain ⟨package, hpackage⟩ := InternTable.exists_text hp
  have hlookup : names.lookup u.package = .ok package := InternTable.lookup_eq_ok_iff.mpr hpackage
  have hlookup' : (c.tableWithBuiltins names).lookup u.package = .ok package :=
    InternTable.lookup_eq_ok_iff.mpr (c.tableWithBuiltins_extends names _ _ hpackage)
  rw [compile_names hlookup]
  refine ⟨names.inverse.internAll_strings c.builtins.functions, fun n s hn => ?_, ?_⟩
  · rw [InternTable.lookup_eq_ok_iff] at hn ⊢
    exact c.tableWithBuiltins_extends names n s hn
  · unfold compile
    rw [hlookup, hlookup', builtinSymbols_again]

/-- A unit whose function is called `exit`, under a name that a new table does not hold. -/
def unitAhead : SourceUnit := { package := ⟨0⟩, functions := [⟨⟨2⟩, none, .single 0⟩] }

/-- The name of the function is out of bounds before the first compilation and no longer so before
the second. -/
theorem compile_again_unitAhead :
    (∃ f, NameTable.initial.lookup ⟨2⟩ = .error f) ∧
    unitAhead.package.index < NameTable.initial.size ∧ NameTable.initial.lookup ⟨0⟩ = .ok "" ∧
    (compile {} .initial unitAhead).names.strings = ["", "println", "exit"] ∧
    (compile {} .initial unitAhead).names.lookup ⟨0⟩ = .ok "" ∧
    compile {} (compile {} .initial unitAhead).names unitAhead = compile {} .initial unitAhead := by
  have hp : unitAhead.package.index < NameTable.initial.size := by decide
  obtain ⟨hstrings, hkept, hagain⟩ := compile_again {} hp
  refine ⟨⟨_, rfl⟩, hp, rfl, hstrings.trans (by decide), hkept ⟨0⟩ "" rfl, hagain⟩

end Compiler

end RegisterCode
