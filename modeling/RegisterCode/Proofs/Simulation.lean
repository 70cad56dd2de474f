import RegisterCode.Proofs.Sections
import RegisterCode.Proofs.Semantics
import RegisterCode.Proofs.WellFormed

/-!
# Code does what the source says

The code of a function is run beside the function. At every place of the body each variable in
scope has a slot, and the slot holds the variable's value (`Agrees`). That a write to one slot
changes no other variable rests on labels: the variables in scope have different ones, and so has
every variable that is still to be declared (`Apart`). The latter needs the declarations of the
function to differ in name or position, since a label is made of those two.

Results: `ExprCode.runs` (the code of an expression leaves its value in the result register),
`StmtsCode.runs` (the code of statements keeps the agreement), `Compiler.code_follows_source` (the
functions of a listing call the same builtin functions, and leave the same external state and the
same variables of the package, as the source).
-/

namespace RegisterCode

/-! ## Labels -/

/-- The label is that of a variable of the layer. -/
def Layer.Uses (l : Layer) (label : Label) : Prop := ∃ n symbol, l n = some symbol ∧
  symbol.label = label

/-- All variables have different labels, within a layer and between layers. -/
structure Separate (ls : List Layer) : Prop where
  within : ∀ l ∈ ls, ∀ n n' symbol symbol', l n = some symbol → l n' = some symbol' →
    symbol.label = symbol'.label → n = n'
  between : ls.Pairwise fun l l' => ∀ label, l.Uses label → ¬ l'.Uses label

mutual

/-- The declarations in a statement, each with its name and position, in order. -/
def StmtTree.declarations : StmtTree → List (Name × Nat)
  | .var site n _ => [(n, site.span.start)]
  | .block _ body => StmtTree.declarationsAll body
  | .assign .. | .expr .. | .error .. => []

/-- The declarations in a list of statements. -/
def StmtTree.declarationsAll : List StmtTree → List (Name × Nat)
  | [] => []
  | t :: rest => t.declarations ++ StmtTree.declarationsAll rest

end

/-- There is room for the declarations of `ts` beside the variables `ls`: all labels differ. -/
structure Apart (m : Mangling) (names : NameTable) (ls : List Layer) (ts : List StmtTree) :
    Prop where
  separate : Separate ls
  nodup : (StmtTree.declarationsAll ts).Nodup
  fresh : ∀ d ∈ StmtTree.declarationsAll ts, ∀ text, names.text? d.1 = some text →
    ∀ l ∈ ls, ¬ l.Uses (m.localSlot text d.2)

section Labels

variable {m : Mangling} {names : NameTable} {l : Layer} {ls : List Layer} {ts : List StmtTree}

theorem Layer.not_uses_empty (label : Label) : ¬ Layer.empty.Uses label := by
  rintro ⟨n, symbol, hn, -⟩
  exact absurd hn (by simp)

theorem Layer.Uses.of_bind {symbol : Symbol} {label : Label} (h : (l.bind symbol).Uses label) :
    symbol.label = label ∨ l.Uses label := by
  obtain ⟨n, symbol', hn, rfl⟩ := h
  rw [Layer.bind_apply] at hn
  split at hn
  · obtain rfl := Option.some.inj hn
    exact Or.inl rfl
  · exact Or.inr ⟨n, symbol', hn, rfl⟩

theorem Separate.enter (h : Separate ls) : Separate (Layer.empty :: ls) where
  within := by
    intro l hl n n' symbol symbol' hn hn' heq
    rcases List.mem_cons.mp hl with rfl | hl
    · exact absurd hn (by simp)
    · exact h.within l hl n n' symbol symbol' hn hn' heq
  between := List.pairwise_cons.mpr
    ⟨fun _ _ label huses => absurd huses (Layer.not_uses_empty label), h.between⟩

/-- A variable with a label of its own may be added. -/
theorem Separate.bind {symbol : Symbol} (h : Separate (l :: ls))
    (hfresh : ∀ l' ∈ l :: ls, ¬ l'.Uses symbol.label) : Separate (l.bind symbol :: ls) where
  within := by
    intro l' hl' n n' s s' hn hn' heq
    rcases List.mem_cons.mp hl' with rfl | hl'
    · rw [Layer.bind_apply] at hn hn'
      have hl := hfresh l List.mem_cons_self
      split at hn <;> split at hn'
      · next hsym hsym' => exact hsym.symm.trans hsym'
      · obtain rfl := Option.some.inj hn
        exact absurd ⟨n', s', hn', heq.symm⟩ hl
      · obtain rfl := Option.some.inj hn'
        exact absurd ⟨n, s, hn, heq⟩ hl
      · exact h.within l List.mem_cons_self n n' s s' hn hn' heq
    · exact h.within l' (List.mem_cons_of_mem l hl') n n' s s' hn hn' heq
  between := by
    obtain ⟨hl, hls⟩ := List.pairwise_cons.mp h.between
    refine List.pairwise_cons.mpr ⟨fun l' hl' label huses => ?_, hls⟩
    rcases huses.of_bind with rfl | huses
    · exact hfresh l' (List.mem_cons_of_mem l hl')
    · exact hl l' hl' label huses

theorem Apart.block {site : Site StmtId} {body : List StmtTree}
    (h : Apart m names ls (.block site body :: ts)) :
    Apart m names (Layer.empty :: ls) body ∧ Apart m names ls ts := by
  obtain ⟨hbody, hrest, -⟩ := List.nodup_append.mp h.nodup
  refine ⟨⟨h.separate.enter, hbody, fun d hd text htext l hl => ?_⟩,
    ⟨h.separate, hrest, fun d hd => h.fresh d (List.mem_append_right _ hd)⟩⟩
  rcases List.mem_cons.mp hl with rfl | hl
  · exact Layer.not_uses_empty _
  · exact h.fresh d (List.mem_append_left _ hd) text htext l hl

/-- A declaration has a label of its own, and there is room for those behind it. -/
theorem Apart.var {site : Site StmtId} {n : Name} {init : Option ExprTree} {text : String}
    (hn : names.text? n = some text)
    (h : Apart m names (l :: ls) (.var site n init :: ts)) :
    (∀ l' ∈ l :: ls, ¬ l'.Uses (m.localSlot text site.span.start)) ∧
      Apart m names
        (l.bind ⟨n, m.localSlot text site.span.start, .declared site.id⟩ :: ls) ts := by
  have hself : ∀ l' ∈ l :: ls, ¬ l'.Uses (m.localSlot text site.span.start) :=
    h.fresh (n, site.span.start) (List.mem_append_left _ List.mem_cons_self) text hn
  obtain ⟨hnot, hnodup⟩ := List.nodup_cons.mp h.nodup
  refine ⟨hself, h.separate.bind hself, hnodup, fun d hmem text' htext' l' hl' huses => ?_⟩
  have hold := h.fresh d (List.mem_append_right _ hmem) text' htext'
  rcases List.mem_cons.mp hl' with rfl | hl'
  · rcases huses.of_bind with heq | huses
    · -- the labels can only be equal if the declarations are
      obtain ⟨rfl, hpos⟩ := Mangling.localSlot_inj heq
      obtain rfl := NameTable.text_inj hn htext'
      rw [hpos] at hnot
      exact hnot hmem
    · exact hold l List.mem_cons_self huses
  · exact hold l' (List.mem_cons_of_mem l hl') huses

end Labels

/-! ## Agreement -/

/-- The variables of a layer are those of a frame, and their slots hold their values. -/
structure Layer.AgreesWith (slots : Slots) (l : Layer) (cells : Cells) : Prop where
  bound : ∀ {n symbol}, l n = some symbol →
    ∃ x, cells n = some x ∧ slots symbol.label = some (some x)
  unbound : ∀ {n}, l n = none → cells n = none

/-- Layer by layer, the variables in scope are those in the frames. -/
def Agrees (slots : Slots) (ls : List Layer) (env : List Cells) : Prop :=
  List.Forall₂ (Layer.AgreesWith slots) ls env

section Agreement

variable {slots slots' : Slots} {l : Layer} {ls : List Layer} {cells : Cells} {env : List Cells}
  {n : Name} {symbol : Symbol} {x : Int32}

/-- Slots of other labels do not matter. -/
theorem Layer.AgreesWith.frame (h : l.AgreesWith slots cells)
    (heq : ∀ label, l.Uses label → slots' label = slots label) : l.AgreesWith slots' cells where
  bound := by
    intro n symbol hn
    obtain ⟨x, hx, hslot⟩ := h.bound hn
    exact ⟨x, hx, (heq symbol.label ⟨n, symbol, hn, rfl⟩).trans hslot⟩
  unbound := h.unbound

theorem Layer.AgreesWith.set_slot (h : l.AgreesWith slots cells) {label : Label}
    (hlabel : ¬ l.Uses label) (content : Option Int32) :
    l.AgreesWith (slots.set label content) cells := by
  refine h.frame fun label' huses => slots.set_of_ne ?_ content
  rintro rfl
  exact hlabel huses

/-- A variable, new or not, is set together with its slot, if no other variable has its label. -/
theorem Layer.AgreesWith.set {l' : Layer} (h : l.AgreesWith slots cells)
    (hself : l' n = some symbol) (hother : ∀ n', n ≠ n' → l' n' = l n')
    (hlabel : ∀ n' symbol', l n' = some symbol' → symbol.label = symbol'.label → n = n') :
    l'.AgreesWith (slots.set symbol.label (some x)) (cells.set n x) where
  bound := by
    intro n' symbol' hn'
    rw [Cells.set_apply]
    by_cases heq : n = n'
    · rw [← heq, hself] at hn'
      obtain rfl := Option.some.inj hn'
      exact ⟨x, if_pos heq, Slots.set_self ..⟩
    · rw [hother n' heq] at hn'
      obtain ⟨y, hy, hslot⟩ := h.bound hn'
      refine ⟨y, (if_neg heq).trans hy, ?_⟩
      rw [Slots.set_of_ne _ fun hl => heq (hlabel n' symbol' hn' hl)]
      exact hslot
  unbound := by
    intro n' hn'
    have hne : n ≠ n' := by
      rintro rfl
      exact absurd (hself.symm.trans hn') (by simp)
    rw [Cells.set_apply, if_neg hne]
    exact h.unbound (hother n' hne ▸ hn')

namespace Agrees

theorem enter (h : Agrees slots ls env) :
    Agrees slots (Layer.empty :: ls) (Cells.empty :: env) :=
  .cons ⟨fun hn => absurd hn (by simp), fun _ => rfl⟩ h

theorem set_slot (h : Agrees slots ls env) {label : Label} (hlabel : ∀ l ∈ ls, ¬ l.Uses label)
    (content : Option Int32) : Agrees (slots.set label content) ls env := by
  induction h with
  | nil => exact .nil
  | @cons l cells ls env hl _ ih =>
    refine .cons (hl.set_slot (hlabel l List.mem_cons_self) content) (ih ?_)
    exact fun l' hl' => hlabel l' (List.mem_cons_of_mem l hl')

/-- The slot of a variable holds its value. -/
theorem find (h : Agrees slots ls env) (hn : Layer.find ls n = some symbol) :
    ∃ x, Cells.find env n = some x ∧ slots symbol.label = some (some x) := by
  induction h with
  | nil => exact absurd hn (by simp)
  | @cons l cells ls env hl _ ih =>
    rw [Layer.find_cons] at hn
    rw [Cells.find_cons]
    cases hln : l n with
    | none =>
      rw [hln] at hn
      rw [hl.unbound hln]
      exact ih hn
    | some s =>
      rw [hln] at hn
      obtain rfl := Option.some.inj hn
      obtain ⟨x, hx, hslot⟩ := hl.bound hln
      exact ⟨x, by rw [hx]; rfl, hslot⟩

/-- A new variable with a label of its own. -/
theorem declare (h : Agrees slots (l :: ls) env) (symbol : Symbol) (x : Int32)
    (hfresh : ∀ l' ∈ l :: ls, ¬ l'.Uses symbol.label) :
    ∃ env', Cells.declare env symbol.name x = some env' ∧
      Agrees (slots.set symbol.label (some x)) (l.bind symbol :: ls) env' := by
  cases h with
  | @cons _ cells _ env hl hls =>
    refine ⟨cells.set symbol.name x :: env, rfl, .cons (hl.set ?_ ?_ ?_) (set_slot hls ?_ _)⟩
    · exact if_pos rfl
    · exact fun n' hne => if_neg hne
    · exact fun n' symbol' hn' hlabel =>
        absurd ⟨n', symbol', hn', hlabel.symm⟩ (hfresh l List.mem_cons_self)
    · exact fun l' hl' => hfresh l' (List.mem_cons_of_mem l hl')

/-- A write to the slot of a variable changes that variable. -/
theorem assign (h : Agrees slots ls env) (hsep : Separate ls)
    (hn : Layer.find ls n = some symbol) :
    ∃ env', Cells.assign env n x = some env' ∧
      Agrees (slots.set symbol.label (some x)) ls env' := by
  induction h with
  | nil => exact absurd hn (by simp)
  | @cons l cells ls env hl hls ih =>
    obtain ⟨hbetween, hrest⟩ := List.pairwise_cons.mp hsep.between
    rw [Layer.find_cons] at hn
    rw [Cells.assign]
    cases hln : l n with
    | none =>
      rw [hln] at hn
      have hsep' : Separate ls := ⟨fun l' hl' => hsep.within l' (List.mem_cons_of_mem l hl'), hrest⟩
      obtain ⟨env', henv', hagrees⟩ := ih hsep' hn
      obtain ⟨l', hl', hln'⟩ := Layer.mem_of_find hn
      rw [hl.unbound hln, henv']
      refine ⟨cells :: env', rfl, .cons (hl.set_slot ?_ _) hagrees⟩
      exact fun huses => hbetween l' hl' symbol.label huses ⟨n, symbol, hln', rfl⟩
    | some s =>
      rw [hln] at hn
      obtain rfl := Option.some.inj hn
      obtain ⟨y, hy, -⟩ := hl.bound hln
      rw [hy]
      refine ⟨cells.set n x :: env, rfl, .cons (hl.set hln (fun _ _ => rfl) ?_)
        (set_slot hls ?_ _)⟩
      · exact fun n' s' hln' => hsep.within l List.mem_cons_self n n' s s' hln hln'
      · exact fun l' hl' => hbetween l' hl' s.label ⟨n, s, hln, rfl⟩

end Agrees

end Agreement

/-! ## Expressions -/

namespace Machine

variable {σ : Type}

/-- From `m` to `m'` no slot has changed, and no register below `k`. -/
structure Keeps (k : Nat) (m m' : Machine σ) : Prop where
  registers : ∀ r : Register, r.index < k → m'.registers r = m.registers r
  slots : m'.slots = m.slots

theorem Keeps.trans {k k' : Nat} {m m₁ m₂ : Machine σ} (h : Keeps k m m₁) (h' : Keeps k' m₁ m₂)
    (hk : k ≤ k') : Keeps k m m₂ where
  registers r hr := (h'.registers r (Nat.lt_of_lt_of_le hr hk)).trans (h.registers r hr)
  slots := h'.slots.trans h.slots

theorem keeps_write (m : Machine σ) {k r : Nat} (h : k ≤ r) (x : Int32)
    (world : World Label σ) : Keeps k m { m.write ⟨r⟩ x with world } where
  registers q hq := by
    refine m.write_registers_of_ne ?_ x
    rintro rfl
    exact Nat.not_lt.mpr h hq
  slots := rfl

end Machine

/-- The operations that code has do what they do in the source. -/
theorem BinaryOp.eval_of_opcode {κ κ' σ : Type} {rt : Runtime κ σ} {label : κ' → κ} {op : BinaryOp}
    {opcode : Opcode} (h : op.opcode? = some opcode) (x y : Int32) :
    op.eval (rt.named label) x y = some (opcode.eval rt x y) := by
  cases op <;> cases h <;> rfl

theorem eq_ofInt_of_literal {value : Int} {n : Int32} (h : literal? value = some n) :
    n = Int32.ofInt value := by
  unfold literal? at h
  split at h
  · exact (Option.some.inj h).symm
  · exact absurd h (by simp)

theorem ExprCode.le_result {univ : Layer} {ls : List Layer} {k r : Nat} {t : ExprTree}
    {code : List Instr} (h : ExprCode univ ls k t code r) : k ≤ r := by
  induction h with
  | ident | int => exact Nat.le_refl _
  | binary _ _ _ ih ih' => omega
  | neg _ ih | call _ _ ih => omega
  | pos _ ih | paren _ ih => exact ih

/-- The functions of the layer carry the labels of their names. -/
def Layer.Labels (univ : Layer) (names : NameTable) (label : String → Label) : Prop :=
  ∀ {f : Name} {symbol : Symbol}, univ f = some symbol →
    ∃ text, names.text? f = some text ∧ symbol.label = label text

theorem StmtTree.execAll_singleton {σ : Type} {names : NameTable} {env : List Cells}
    {w : World String σ} (rt : Runtime String σ) (t : StmtTree) :
    StmtTree.execAll rt names [t] env w = t.exec rt names env w := by
  cases h : t.exec rt names env w with
  | none => simp [StmtTree.execAll, h]
  | some r => simp [StmtTree.execAll, h]

section Runs

variable {σ : Type} (rt : Runtime Label σ) {names : NameTable} {label : String → Label}
  {univ : Layer} {ls ls' : List Layer} {k k' : Nat} {code : List Instr} {env : List Cells}
  {w : World String σ} {m : Machine σ}

/-- **The code of an expression computes its value**, with the same calls, into the result
register. -/
theorem ExprCode.runs {t : ExprTree} {r : Nat} (h : ExprCode univ ls k t code r)
    (hu : univ.Labels names label) (ha : Agrees m.slots ls env)
    (hw : m.world = w.relabel label) :
    ∃ x w' m', t.eval (rt.named label) names env w = some (x, w') ∧ m.run rt code = some m' ∧
      m'.registers ⟨r⟩ = some x ∧ m.Keeps k m' ∧ m'.world = w'.relabel label := by
  induction h generalizing w m with
  | @ident k site n symbol bound =>
    obtain ⟨x, hx, hslot⟩ := ha.find bound
    refine ⟨x, w, m.write ⟨k⟩ x, ?_, ?_, m.write_registers_self _ x,
      m.keeps_write (Nat.le_refl k) x m.world, hw⟩
    · simp [ExprTree.eval, hx]
    · simp [Machine.step, hslot]
  | @int k site value n fits =>
    refine ⟨n, w, m.write ⟨k⟩ n, ?_, ?_, m.write_registers_self _ n,
      m.keeps_write (Nat.le_refl k) n m.world, hw⟩
    · simp [ExprTree.eval, eq_ofInt_of_literal fits]
    · simp [Machine.step, Machine.value, Value.zero, Opcode.eval]
  | @binary k a b site op opcode left right code code' arithmetic first second ih ih' =>
    obtain ⟨x, w₁, m₁, heval, hrun, hx, hkeeps, hw₁⟩ := ih ha hw
    have ha₁ : Agrees m₁.slots ls env := hkeeps.slots ▸ ha
    obtain ⟨y, w₂, m₂, heval', hrun', hy, hkeeps', hw₂⟩ := ih' ha₁ hw₁
    -- the code of the right operand leaves the value of the left one alone
    have hx₂ : m₂.registers ⟨a⟩ = some x := (hkeeps'.registers ⟨a⟩ (Nat.lt_succ_self a)).trans hx
    have hle := first.le_result
    have hle' := second.le_result
    refine ⟨opcode.eval rt x y, w₂, m₂.write ⟨b + 1⟩ (opcode.eval rt x y), ?_, ?_,
      m₂.write_registers_self .., ?_, hw₂⟩
    · simp [ExprTree.eval, heval, heval', BinaryOp.eval_of_opcode arithmetic]
    · simp [Machine.run_append, hrun, hrun', Machine.step, Machine.value,
        hx₂, hy]
    · exact (hkeeps.trans hkeeps' (by omega)).trans (m₂.keeps_write (by omega) _ m₂.world)
        (Nat.le_refl k)
  | @neg k a site t code operand ih =>
    obtain ⟨x, w₁, m₁, heval, hrun, hx, hkeeps, hw₁⟩ := ih ha hw
    have hle := operand.le_result
    refine ⟨-x, w₁, m₁.write ⟨a + 1⟩ (-x), ?_, ?_, m₁.write_registers_self .., ?_, hw₁⟩
    · simp [ExprTree.eval, heval]
    · simp [Machine.run_append, hrun, Machine.step, Machine.value,
        Value.zero, hx, Opcode.eval]
    · exact hkeeps.trans (m₁.keeps_write (by omega) _ m₁.world) (Nat.le_refl k)
  | pos _ ih =>
    obtain ⟨x, w₁, m₁, heval, hrest⟩ := ih ha hw
    exact ⟨x, w₁, m₁, by simp [ExprTree.eval, heval], hrest⟩
  | paren _ ih =>
    obtain ⟨x, w₁, m₁, heval, hrest⟩ := ih ha hw
    exact ⟨x, w₁, m₁, by simp [ExprTree.eval, heval], hrest⟩
  | @call k a site f symbol arg code builtin argument ih =>
    obtain ⟨x, w₁, m₁, heval, hrun, hx, hkeeps, hw₁⟩ := ih ha hw
    obtain ⟨text, htext, hlabel⟩ := hu builtin
    have hle := argument.le_result
    refine ⟨(w₁.call (rt.named label) text x).1, (w₁.call (rt.named label) text x).2,
      { m₁.write ⟨a + 1⟩ (w₁.call (rt.named label) text x).1 with
        world := (w₁.call (rt.named label) text x).2.relabel label }, ?_, ?_, ?_, ?_, rfl⟩
    · simp [ExprTree.eval, heval, htext]
    · simp [Machine.run_append, hrun, Machine.step, Machine.value, hx, hw₁,
        hlabel, World.call_relabel]
    · exact m₁.write_registers_self ..
    · exact hkeeps.trans (m₁.keeps_write (by omega) _ _) (Nat.le_refl k)

theorem InitCode.runs {init : Option ExprTree} {v : Value} (h : InitCode univ ls k init code v k')
    (hu : univ.Labels names label) (ha : Agrees m.slots ls env)
    (hw : m.world = w.relabel label) :
    ∃ x w' m', ExprTree.evalInit (rt.named label) names env w init = some (x, w') ∧
      m.run rt code = some m' ∧ m'.value v = some x ∧ m'.slots = m.slots ∧
      m'.world = w'.relabel label := by
  cases h with
  | zero => exact ⟨0, w, m, rfl, rfl, rfl, rfl, hw⟩
  | expr value =>
    obtain ⟨x, w₁, m₁, heval, hrun, hx, hkeeps, hw₁⟩ := value.runs rt hu ha hw
    exact ⟨x, w₁, m₁, heval, hrun, hx, hkeeps.slots, hw₁⟩

/-! ## Statements -/

/-- **The code of statements does what the statements do**: the slots of the variables in scope
keep holding their values, and the calls are the same. -/
theorem StmtsCode.runs {mg : Mangling} {ts : List StmtTree}
    (h : StmtsCode mg names univ ls k ts code ls' k')
    (hu : univ.Labels names label) (hapart : Apart mg names ls ts) (ha : Agrees m.slots ls env)
    (hw : m.world = w.relabel label) :
    ∃ env' w' m', StmtTree.execAll (rt.named label) names ts env w = some (env', w') ∧
      m.run rt code = some m' ∧ Agrees m'.slots ls' env' ∧ m'.world = w'.relabel label := by
  induction h generalizing env w m with
  | nil => exact ⟨env, w, m, rfl, rfl, ha, hw⟩
  | @var l ls ls' k k₁ k' site n text init v rest code code' value named _ ih =>
    obtain ⟨x, w₁, m₁, heval, hrun, hx, hslots, hw₁⟩ := value.runs rt hu ha hw
    obtain ⟨hfresh, hrest⟩ := hapart.var named
    rw [← hslots] at ha
    -- no variable in scope has the new slot, so all of them keep their values
    obtain ⟨env₁, hdeclare, ha₁⟩ := ha.declare
      ⟨n, mg.localSlot text site.span.start, .declared site.id⟩ x hfresh
    obtain ⟨env₂, w₂, m₂, hexec, hrun', ha₂, hw₂⟩ := ih hrest
      (m := { m₁ with slots := m₁.slots.set (mg.localSlot text site.span.start) (some x) }) ha₁ hw₁
    refine ⟨env₂, w₂, m₂, ?_, ?_, ha₂, hw₂⟩
    · simp [StmtTree.execAll, StmtTree.exec, heval, hdeclare, hexec]
    · simp [Machine.run_append, hrun, Machine.step, hx, hrun']
  | @assign ls ls' k a k' site n symbol t rest code code' bound value _ ih =>
    obtain ⟨x, w₁, m₁, heval, hrun, hx, hkeeps, hw₁⟩ := value.runs rt hu ha hw
    rw [← hkeeps.slots] at ha
    obtain ⟨y, -, hslot⟩ := ha.find bound
    obtain ⟨env₁, hassign, ha₁⟩ := ha.assign (x := x) hapart.separate bound
    obtain ⟨env₂, w₂, m₂, hexec, hrun', ha₂, hw₂⟩ := ih
      ⟨hapart.separate, hapart.nodup, hapart.fresh⟩
      (m := { m₁ with slots := m₁.slots.set symbol.label (some x) }) ha₁ hw₁
    refine ⟨env₂, w₂, m₂, ?_, ?_, ha₂, hw₂⟩
    · simp [StmtTree.execAll, StmtTree.exec, heval, hassign, hexec]
    · simp [Machine.run_append, hrun, Machine.step, Machine.value, hx,
        hslot, hrun']
  | @block ls inner ls' k k₁ k' site body rest code code' within _ ih ih' =>
    obtain ⟨hbody, hrest⟩ := hapart.block
    obtain ⟨env₁, w₁, m₁, hexec, hrun, ha₁, hw₁⟩ := ih hbody ha.enter hw
    obtain ⟨l', rfl⟩ := within.outer_eq
    -- the innermost layer and the innermost frame go together
    cases ha₁ with
    | @cons _ cells _ env₁ _ ha₁ =>
      obtain ⟨env₂, w₂, m₂, hexec', hrun', ha₂, hw₂⟩ := ih' hrest ha₁ hw₁
      refine ⟨env₂, w₂, m₂, ?_, ?_, ha₂, hw₂⟩
      · simp [StmtTree.execAll, StmtTree.exec, hexec, hexec']
      · simp [Machine.run_append, hrun, hrun']
  | @expr ls ls' k a k' site t rest code code' value _ ih =>
    obtain ⟨x, w₁, m₁, heval, hrun, -, hkeeps, hw₁⟩ := value.runs rt hu ha hw
    rw [← hkeeps.slots] at ha
    obtain ⟨env₂, w₂, m₂, hexec, hrun', ha₂, hw₂⟩ :=
      ih ⟨hapart.separate, hapart.nodup, hapart.fresh⟩ ha hw₁
    refine ⟨env₂, w₂, m₂, ?_, ?_, ha₂, hw₂⟩
    · simp [StmtTree.execAll, StmtTree.exec, heval, hexec]
    · simp [Machine.run_append, hrun, hrun']

end Runs

/-! ## Functions of a unit -/

/-- The variables of the package are those of the frame, and their slots hold their values. -/
structure HoldsGlobals (m : Mangling) (names : NameTable) (package : String)
    (gs : List GlobalDecl) (cells : Cells) (slots : Slots) : Prop where
  cell : ∀ n, (cells n).isSome = true ↔ ∃ g ∈ gs, g.name = n
  slot : ∀ g ∈ gs, ∀ text x, names.text? g.name = some text → cells g.name = some x →
    slots (m.global package text) = some (some x)

section Globals

variable {m : Mangling} {names : NameTable} {package : String} {gs : List GlobalDecl}
  {symbols : List Symbol} {cells : Cells} {slots : Slots}

theorem holdsGlobals_iff (h : globalSymbols m names package 0 gs = some symbols) :
    HoldsGlobals m names package gs cells slots ↔
      (Layer.ofSymbols symbols).AgreesWith slots cells := by
  constructor
  · intro hholds
    constructor
    · intro n symbol hn
      obtain ⟨hmem, rfl⟩ := Layer.ofSymbols_eq_some hn
      obtain ⟨-, ⟨g, hg, hname⟩, text, htext, hlabel⟩ := mem_globalSymbols h hmem
      obtain ⟨x, hx⟩ := Option.isSome_iff_exists.mp ((hholds.cell symbol.name).mpr ⟨g, hg, hname⟩)
      rw [← hname] at htext hx ⊢
      exact ⟨x, hx, hlabel ▸ hholds.slot g hg text x htext hx⟩
    · intro n hn
      by_contra hcell
      obtain ⟨g, hg, rfl⟩ := (hholds.cell n).mp (Option.isSome_iff_ne_none.mpr hcell)
      obtain ⟨s, hs, hname⟩ := exists_mem_globalSymbols h hg
      have hsome := Layer.ofSymbols_isSome hs
      rw [hname, hn] at hsome
      exact Bool.false_ne_true hsome
  · intro hagrees
    have hbound : ∀ g ∈ gs, ∃ symbol, Layer.ofSymbols symbols g.name = some symbol := by
      intro g hg
      obtain ⟨s, hs, hname⟩ := exists_mem_globalSymbols h hg
      exact Option.isSome_iff_exists.mp (hname ▸ Layer.ofSymbols_isSome hs)
    constructor
    · intro n
      constructor
      · intro hcell
        cases hn : Layer.ofSymbols symbols n with
        | none =>
          rw [hagrees.unbound hn] at hcell
          exact absurd hcell Bool.false_ne_true
        | some symbol =>
          obtain ⟨hmem, rfl⟩ := Layer.ofSymbols_eq_some hn
          exact (mem_globalSymbols h hmem).2.1
      · rintro ⟨g, hg, rfl⟩
        obtain ⟨symbol, hn⟩ := hbound g hg
        obtain ⟨x, hx, -⟩ := hagrees.bound hn
        exact hx ▸ rfl
    · intro g hg text x htext hx
      -- `symbol` may stem from a later variable of the same name, which has the same label
      obtain ⟨symbol, hn⟩ := hbound g hg
      obtain ⟨x', hx', hslot⟩ := hagrees.bound hn
      obtain ⟨hmem, hname⟩ := Layer.ofSymbols_eq_some hn
      obtain ⟨-, -, text', htext', hlabel⟩ := mem_globalSymbols h hmem
      obtain rfl := Option.some.inj (hx'.symm.trans hx)
      rw [hname] at htext'
      obtain rfl := Option.some.inj (htext'.symm.trans htext)
      exact hlabel ▸ hslot

/-- Where a function starts there is room for its declarations, if they differ. -/
theorem apart_globals
    (h : globalSymbols m names package 0 gs = some symbols) {t : StmtTree}
    (hnodup : t.declarations.Nodup) :
    Apart m names [Layer.empty, Layer.ofSymbols symbols] [t] := by
  have hlabel : ∀ {n : Name} {symbol : Symbol}, Layer.ofSymbols symbols n = some symbol →
      ∃ text, names.text? n = some text ∧ symbol.label = m.global package text := by
    intro n symbol hn
    obtain ⟨hmem, rfl⟩ := Layer.ofSymbols_eq_some hn
    exact (mem_globalSymbols h hmem).2.2
  refine ⟨Separate.enter ⟨?_, List.pairwise_singleton ..⟩, ?_, ?_⟩
  · intro l hl n n' symbol symbol' hn hn' heq
    obtain rfl := List.mem_singleton.mp hl
    obtain ⟨text, htext, hsymbol⟩ := hlabel hn
    obtain ⟨text', htext', hsymbol'⟩ := hlabel hn'
    rw [hsymbol, hsymbol'] at heq
    rw [Mangling.global_inj heq] at htext
    exact NameTable.text_inj htext htext'
  · rwa [StmtTree.declarationsAll, StmtTree.declarationsAll, List.append_nil]
  · intro d hd text htext l hl huses
    rcases List.mem_cons.mp hl with rfl | hl
    · exact Layer.not_uses_empty _ huses
    · obtain rfl := List.mem_singleton.mp hl
      obtain ⟨n, symbol, hn, hslot⟩ := huses
      obtain ⟨text', -, hsymbol⟩ := hlabel hn
      rw [hsymbol] at hslot
      exact Mangling.global_ne_localSlot hslot

end Globals

namespace Compiler

variable {c : Compiler} {names : NameTable} {u : SourceUnit} {listing : Listing}

/-- The builtin functions carry the labels of their names. -/
theorem builtinLayer_labels (c : Compiler) (names : NameTable) :
    (c.builtinLayer names).Labels (c.tableWithBuiltins names) c.mangling.builtin := by
  intro f symbol h
  obtain ⟨text, -, htext, hlabel⟩ := builtinLayer_eq_some h
  exact ⟨text, htext, hlabel⟩

/-- **Code does what the source says.** The functions of a listing are the functions with a body,
in order. If the declarations of such a function differ in name or position, then for all values
of the package's variables and all worlds both the function and its code run to the end; they make
the same calls, builtin functions being called by their labels in code, and leave the same
external state and the same values of the package's variables. -/
theorem code_follows_source {σ : Type} (rt : Runtime Label σ)
    (h : (c.compile names u).outcome = .ok listing) :
    ∃ package, names.text? u.package = some package ∧
      List.Forall₂ (fun f sec => ∃ text body t,
          (c.tableWithBuiltins names).text? f.name = some text ∧
          sec.1 = c.mangling.function package text ∧
          f.body = some body ∧ u.nodes.stmtTree body = some t ∧
          (t.declarations.Nodup → ∀ (cells : Cells) (w : World String σ) (m : Machine σ),
            HoldsGlobals c.mangling (c.tableWithBuiltins names) package u.globals cells m.slots →
            m.world = w.relabel c.mangling.builtin →
            ∃ cells' w' m',
              t.run (rt.named c.mangling.builtin) (c.tableWithBuiltins names) cells w =
                some (cells', w') ∧
              m.run rt sec.2 = some m' ∧
              m'.world = w'.relabel c.mangling.builtin ∧
              HoldsGlobals c.mangling (c.tableWithBuiltins names) package u.globals cells'
                m'.slots))
        (u.functions.filter (·.body.isSome)) (sections listing.instrs) := by
  obtain ⟨package, globals, functions, k, hunit, rfl⟩ := compile_translates h
  refine ⟨package, hunit.packageText, ?_⟩
  rw [sections_assemble]
  refine hunit.functionsCode.sections_forall₂.imp ?_
  rintro f sec ⟨text, body, t, k₀, inner, k₁, htext, hlabel, hbody, htree, hcode⟩
  refine ⟨text, body, t, htext, hlabel, hbody, htree, fun hnodup cells w m hholds hw => ?_⟩
  have hstart : Agrees m.slots [Layer.empty, Layer.ofSymbols globals] [Cells.empty, cells] :=
    Agrees.enter (.cons ((holdsGlobals_iff hunit.globalSymbols_eq).mp hholds) .nil)
  obtain ⟨env, w', m', hexec, hrun, hagrees, hw'⟩ := hcode.runs rt
    (c.builtinLayer_labels names) (apart_globals hunit.globalSymbols_eq hnodup) hstart hw
  obtain ⟨l, rfl⟩ := hcode.outer_eq
  cases hagrees with
  | @cons _ own _ env _ hagrees =>
    cases hagrees with
    | @cons _ cells' _ env hglobals hnil =>
      cases hnil
      refine ⟨cells', w', m', ?_, hrun, hw', (holdsGlobals_iff hunit.globalSymbols_eq).mpr hglobals⟩
      have hbody : t.exec (rt.named c.mangling.builtin) (c.tableWithBuiltins names)
          [Cells.empty, cells] w = some ([own, cells'], w') :=
        StmtTree.execAll_singleton (rt.named c.mangling.builtin) t ▸ hexec
      simp [StmtTree.run, hbody]

end Compiler

/-- Builtin functions that write their arguments down. -/
def Counter.runtime : Runtime Label (List Int32) where
  mul x y := x * y
  div x y := x / y
  call s _ x := (s ++ [x], 0)

/-- A machine on which the package's variable is five. -/
def Counter.machine : Machine (List Int32) where
  registers _ := none
  slots := Slots.set (fun _ => none) ⟨"@ugo_main_x"⟩ (some 5)
  world := ⟨[], []⟩

/-- The code of `main` prints three and minus three, and leaves the variable of the package. -/
theorem Compiler.code_follows_source_counter :
    ∃ listing own other m', (({} : Compiler).compile Counter.names Counter.program).outcome =
        .ok listing ∧
      sections listing.instrs = [own, other] ∧ own.1 = ⟨"@ugo_main_main"⟩ ∧
      Counter.machine.run Counter.runtime own.2 = some m' ∧ m'.world.state = [3, -3] ∧
      m'.world.calls = [(⟨"@ugo_builtin_println"⟩, 3), (⟨"@ugo_builtin_println"⟩, -3)] ∧
      m'.slots ⟨"@ugo_main_x"⟩ = some (some 5) := by
  obtain ⟨listing, h⟩ := Counter.program_compiles
  obtain ⟨package, hpackage, hall⟩ := Compiler.code_follows_source Counter.runtime h
  have hdecl : (Counter.program.nodes.stmtTree ⟨5⟩).map StmtTree.declarations =
      some [(⟨2⟩, 10)] := by decide +kernel
  have hsource : (Counter.program.nodes.stmtTree ⟨5⟩).bind (fun t =>
      (t.run (Counter.runtime.named ({} : Compiler).mangling.builtin)
        (({} : Compiler).tableWithBuiltins Counter.names) (Cells.empty.set ⟨2⟩ 5) ⟨[], []⟩).map
        fun r => (r.1 ⟨2⟩, r.2.state, r.2.calls)) =
      some (some 5, [3, -3], [("println", 3), ("println", -3)]) := by decide +kernel
  have htexts : (({} : Compiler).tableWithBuiltins Counter.names).text? ⟨1⟩ = some "main" ∧
      (({} : Compiler).tableWithBuiltins Counter.names).text? ⟨2⟩ = some "x" := by decide +kernel
  have hfunctions : Counter.program.functions.filter (·.body.isSome) =
      [⟨⟨1⟩, some ⟨5⟩, ⟨6, 50⟩⟩, ⟨⟨4⟩, some ⟨7⟩, ⟨60, 80⟩⟩] := rfl
  rw [hfunctions] at hall
  generalize hsections : sections listing.instrs = secs at hall
  cases hall with
  | @cons _ own _ rest hown hrest =>
    cases hrest with
    | @cons _ other _ rest _ hnil =>
      cases hnil
      obtain ⟨text, body, t, htext, hlabel, hbody, htree, hruns⟩ := hown
      obtain rfl := Option.some.inj hbody
      obtain rfl : "main" = package := Option.some.inj hpackage
      obtain rfl := Option.some.inj (htexts.1.symm.trans htext)
      rw [htree] at hdecl hsource
      have hnodup : t.declarations.Nodup := by
        rw [Option.some.inj hdecl]
        exact List.nodup_singleton _
      have hholds : HoldsGlobals ({} : Compiler).mangling
          (({} : Compiler).tableWithBuiltins Counter.names) "main" Counter.program.globals
          (Cells.empty.set ⟨2⟩ 5) Counter.machine.slots := by
        refine ⟨fun n => ?_, fun g hg text x htext hx => ?_⟩
        · simp [Counter.program, Cells.set_apply]
        · obtain rfl := List.mem_singleton.mp hg
          obtain rfl := Option.some.inj (htexts.2.symm.trans htext)
          obtain rfl : 5 = x := Option.some.inj hx
          rfl
      obtain ⟨cells', w', m', hrun, hcode, hworld, hholds'⟩ :=
        hruns hnodup (Cells.empty.set ⟨2⟩ 5) ⟨[], []⟩ Counter.machine hholds rfl
      rw [Option.bind_some, hrun, Option.map_some, Option.some.injEq, Prod.mk.injEq,
        Prod.mk.injEq] at hsource
      obtain ⟨hcell, hstate, hcalls⟩ := hsource
      refine ⟨listing, own, other, m', h, hsections, hlabel, hcode, ?_, ?_, ?_⟩
      · rw [hworld]
        exact hstate
      · rw [hworld]
        exact congrArg (List.map fun c => (({} : Compiler).mangling.builtin c.1, c.2)) hcalls
      · exact hholds'.slot ⟨⟨2⟩, ⟨0, 5⟩⟩ List.mem_cons_self "x" 5 htexts.2 hcell

end RegisterCode
