import RegisterCode.Proofs.Independence

/-!
# Reading code back

The text of code determines the code, as long as no label holds a blank. A line is read word by
word: the number of its words tells the kinds of instructions apart, up to at most three of them,
and these differ in a word that is no label. A label may otherwise be anything, also a word that
begins another instruction. What was read is written again and compared, so that nothing is
accepted but the text of an instruction.

Results: an instruction is read from its own words (`Instr.ofWords?_words`) and from its own line
only (`Instr.ofLine?_eq_some_iff`), hence the text of code is read as this code
(`decode_eq_some_iff`) and is the text of no other (`emitted_text_unambiguous`).
-/

namespace RegisterCode

/-! ## Pieces of a text -/

/-- The pieces of a text between separators. -/
def pieces (sep : Char) (text : String) : List String :=
  (List.splitOn sep text.toList).map String.ofList

theorem pieces_intercalate {sep : Char} {ps : List String} (h : ∀ p ∈ ps, sep ∉ p.toList)
    (hne : ps ≠ []) : pieces sep ((String.singleton sep).intercalate ps) = ps := by
  have hlists : ∀ l ∈ ps.map String.toList, sep ∉ l := by
    intro l hl
    obtain ⟨p, hp, rfl⟩ := List.mem_map.mp hl
    exact h p hp
  rw [pieces, String.toList_intercalate, String.toList_singleton,
    List.splitOn_intercalate sep hlists (by simpa using hne), List.map_map]
  simp

theorem intercalate_pieces (sep : Char) (text : String) :
    (String.singleton sep).intercalate (pieces sep text) = text := by
  apply String.toList_inj.mp
  rw [String.toList_intercalate, String.toList_singleton, pieces, List.map_map]
  simp [List.intercalate_splitOn]

/-- A character that is neither in the pieces nor separates them is not in the text. -/
theorem not_mem_intercalate {sep c : Char} (hsep : c ≠ sep) {ps : List String}
    (h : ∀ p ∈ ps, c ∉ p.toList) : c ∉ ((String.singleton sep).intercalate ps).toList := by
  induction ps with
  | nil => simp
  | cons p ps ih =>
    have hp := h p List.mem_cons_self
    have hps := ih fun q hq => h q (List.mem_cons_of_mem p hq)
    cases ps with
    | nil => simpa using hp
    | cons q ps =>
      rw [String.intercalate_cons_cons, String.toList_append, String.toList_append]
      simp only [List.mem_append, String.toList_singleton, List.mem_singleton, not_or]
      exact ⟨⟨hp, hsep⟩, hps⟩

/-- What stands before the given ending. -/
def stripEnd (ending text : String) : Option String :=
  (text.toList.dropSuffix? ending.toList).map String.ofList

@[simp]
theorem stripEnd_append (text ending : String) : stripEnd ending (text ++ ending) = some text := by
  have hstrip : (text ++ ending).toList.dropSuffix? ending.toList = some text.toList :=
    List.dropSuffix?_eq_some_iff.mpr ⟨ending.toList, String.toList_append, by simp⟩
  rw [stripEnd, hstrip, Option.map_some, String.ofList_toList]

/-! ## Words without blanks -/

/-- The text holds no blank: no space, tab or end of line. -/
def Solid (text : String) : Prop := ∀ c ∈ text.toList, c.isWhitespace = false

instance (text : String) : Decidable (Solid text) :=
  List.decidableBAll (fun c : Char => c.isWhitespace = false) text.toList

@[simp]
theorem solid_append {s t : String} : Solid (s ++ t) ↔ Solid s ∧ Solid t := by
  simp only [Solid, String.toList_append, List.forall_mem_append]

theorem Solid.not_mem {s : String} (h : Solid s) {c : Char} (hc : c.isWhitespace = true) :
    c ∉ s.toList := by
  intro hmem
  rw [h c hmem] at hc
  exact Bool.false_ne_true hc

theorem isWhitespace_of_isDigit {c : Char} (h : c.isDigit = true) : c.isWhitespace = false := by
  cases hw : c.isWhitespace with
  | false => rfl
  | true =>
    simp only [Char.isWhitespace, Bool.or_eq_true, decide_eq_true_eq] at hw
    rcases hw with ((rfl | rfl) | rfl) | rfl <;> exact absurd h (by decide)

theorem isDigit_of_mem_repr {n : Nat} {c : Char} (h : c ∈ n.repr.toList) : c.isDigit = true := by
  rw [Nat.toList_repr] at h
  exact Nat.isDigit_of_mem_toDigits (by decide) (by decide) h

theorem solid_repr (n : Nat) : Solid n.repr := fun _ hc =>
  isWhitespace_of_isDigit (isDigit_of_mem_repr hc)

@[simp]
theorem Register.text_solid (r : Register) : Solid r.text :=
  solid_append.mpr ⟨by decide, solid_repr r.index⟩

/-- The text of a number holds digits and minus signs only. -/
theorem isDigit_or_eq_of_mem_repr {n : Int} {c : Char} (h : c ∈ n.repr.toList) :
    c.isDigit = true ∨ c = '-' := by
  rw [Int.repr_eq_if] at h
  split at h
  · exact .inl (isDigit_of_mem_repr h)
  · rw [String.toList_append] at h
    rcases List.mem_append.mp h with h | h
    · exact .inr (by simpa using h)
    · exact .inl (isDigit_of_mem_repr h)

@[simp]
theorem Value.text_solid : ∀ v : Value, Solid v.text
  | .reg r => r.text_solid
  | .imm _ => fun _ hc => by
    rcases isDigit_or_eq_of_mem_repr hc with h | rfl
    · exact isWhitespace_of_isDigit h
    · decide

@[simp]
theorem Opcode.text_solid (op : Opcode) : Solid op.text := by
  cases op <;> decide

/-! ## Reading operands -/

/-- The number that a word spells. -/
def intOfWord (w : String) : Int :=
  if w.toList.head? = some '-' then -(Nat.ofDigitChars 10 w.toList.tail 0 : Int)
  else Nat.ofDigitChars 10 w.toList 0

/-- The register that a word names: its number stands behind two characters. -/
def Register.ofWord (w : String) : Register := ⟨Nat.ofDigitChars 10 (w.toList.drop 2) 0⟩

/-- The operand that a word stands for. -/
def Value.ofWord (w : String) : Value :=
  if w.toList.head? = some '%' then .reg (.ofWord w) else .imm (.ofInt (intOfWord w))

/-- The operation that a word stands for. -/
def Opcode.ofWord? (w : String) : Option Opcode :=
  [Opcode.add, .sub, .mul, .div].find? (·.text = w)

theorem ofDigitChars_repr (n : Nat) : Nat.ofDigitChars 10 n.repr.toList 0 = n := by
  rw [Nat.toList_repr, Nat.ofDigitChars_ten_toDigits]

theorem intOfWord_repr (n : Int) : intOfWord n.repr = n := by
  unfold intOfWord
  rw [Int.repr_eq_if]
  split
  · next hn =>
    have hhead : n.toNat.repr.toList.head? ≠ some '-' := by
      intro h
      exact absurd (isDigit_of_mem_repr (List.mem_of_head? h)) (by decide)
    rw [if_neg hhead, ofDigitChars_repr]
    omega
  · next hn =>
    have hlist : ("-" ++ (-n).toNat.repr).toList = '-' :: (-n).toNat.repr.toList := by
      simp [String.toList_append]
    rw [hlist, List.head?_cons, if_pos rfl, List.tail_cons, ofDigitChars_repr]
    omega

theorem Register.toList_text (r : Register) :
    r.text.toList = '%' :: 't' :: r.index.repr.toList := by
  simp [text, String.toList_append]

@[simp]
theorem Register.ofWord_text (r : Register) : ofWord r.text = r := by
  rw [ofWord, toList_text]
  exact congrArg Register.mk (ofDigitChars_repr r.index)

@[simp]
theorem Value.ofWord_text (v : Value) : ofWord v.text = v := by
  cases v with
  | reg r =>
    have htext : (reg r).text = r.text := rfl
    rw [ofWord, htext, Register.ofWord_text, Register.toList_text, List.head?_cons,
      if_pos rfl]
  | imm n =>
    have htext : (imm n).text = n.toInt.repr := rfl
    have hhead : n.toInt.repr.toList.head? ≠ some '%' := by
      intro h
      rcases isDigit_or_eq_of_mem_repr (List.mem_of_head? h) with h | h
      · exact absurd h (by decide)
      · exact absurd h (by decide)
    rw [ofWord, htext, if_neg hhead, intOfWord_repr, Int32.ofInt_toInt]

@[simp]
theorem Opcode.ofWord?_text (op : Opcode) : ofWord? op.text = some op := by
  cases op <;> decide

/-! ## Words of instructions -/

namespace Instr

/-- The words of which the text of an instruction is made. -/
def words : Instr → List String
  | .global slot => [slot.text, "=", "global", "i32", "0"]
  | .declare function => ["declare", "i32", function.text ++ "()"]
  | .define function => ["define", "i32", function.text ++ "()", "\x7b"]
  | .alloca slot => [slot.text, "=", "alloca", "i32,", "align", "4"]
  | .store value slot => ["store", "i32", value.text ++ ",", "i32*", slot.text]
  | .load target slot =>
    [target.text, "=", "load", "i32,", "i32*", slot.text ++ ",", "align", "4"]
  | .binary target op left right =>
    [target.text, "=", op.text, "i32", left.text ++ ",", right.text]
  | .call target function argument =>
    [target.text, "=", "call", "i32(i32)", function.text ++ "(i32", argument.text ++ ")"]
  | .ret => ["ret", "i32", "0"]
  | .close => ["\x7d"]

theorem text_eq_intercalate (i : Instr) : i.text = " ".intercalate i.words := by
  apply String.toList_inj.mp
  cases i <;> simp [text, words, String.toList_append]

/-- The labels that occur in an instruction. -/
def labels : Instr → List Label
  | .global l | .declare l | .define l | .alloca l | .store _ l | .load _ l | .call _ l _ => [l]
  | .binary .. | .ret | .close => []

/-- No label of the instruction holds a blank. -/
def Unspaced (i : Instr) : Prop := ∀ l ∈ i.labels, Solid l.text

instance (i : Instr) : Decidable i.Unspaced :=
  List.decidableBAll (fun l : Label => Solid l.text) i.labels

theorem words_solid {i : Instr} (h : i.Unspaced) : ∀ w ∈ i.words, Solid w := by
  have hfixed : ∀ w ∈ ["=", "global", "i32", "0", "declare", "()", "define", "\x7b", "alloca",
      "i32,", "align", "4", "store", ",", "i32*", "load", "call", "i32(i32)", "(i32", ")", "ret",
      "\x7d"], Solid w := by
    decide
  cases i <;> simp_all [words, Unspaced, labels]

/-- The text of an instruction holds blanks between words only. -/
theorem not_mem_text {i : Instr} (h : i.Unspaced) {c : Char} (hc : c.isWhitespace = true)
    (hne : c ≠ ' ') : c ∉ i.text.toList := by
  rw [text_eq_intercalate]
  exact not_mem_intercalate hne fun w hw => (words_solid h w hw).not_mem hc

/-- The instruction whose words these are. -/
def ofWords? : List String → Option Instr
  | [_] => some .close
  | [verb, _, last] =>
    if verb = "ret" then some .ret
    else (stripEnd "()" last).map fun f => .declare ⟨f⟩
  | [_, _, f, _] => (stripEnd "()" f).map fun f => .define ⟨f⟩
  | [first, second, value, _, last] =>
    -- the first word may be a label that reads `store`, the second is no label
    if second = "=" then some (.global ⟨first⟩)
    else (stripEnd "," value).map fun value => .store (.ofWord value) ⟨last⟩
  | [first, _, verb, _, fifth, sixth] =>
    if verb = "alloca" then some (.alloca ⟨first⟩)
    else if verb = "call" then do
      let function ← stripEnd "(i32" fifth
      let argument ← stripEnd ")" sixth
      return .call (.ofWord first) ⟨function⟩ (.ofWord argument)
    else do
      let op ← Opcode.ofWord? verb
      let left ← stripEnd "," fifth
      return .binary (.ofWord first) op (.ofWord left) (.ofWord sixth)
  | [first, _, _, _, _, slot, _, _] =>
    (stripEnd "," slot).map fun slot => .load (.ofWord first) ⟨slot⟩
  | _ => none

/-- **An instruction is read from its words**, whatever its labels are. -/
theorem ofWords?_words (i : Instr) : ofWords? i.words = some i := by
  cases i with
  | binary r op a b =>
    have hverb : op.text ≠ "alloca" ∧ op.text ≠ "call" := by cases op <;> decide
    simp [words, ofWords?, hverb]
  | _ => simp [words, ofWords?]

/-! ## Lines -/

/-- The instruction as it stands on its line. -/
def indented (i : Instr) : String := (if i.isBody then "\t" else "") ++ i.text

/-- A line that begins with a tab is the line of an instruction inside a function. -/
theorem head_indented {i : Instr} (h : i.Unspaced) :
    i.indented.toList.head? = some '\t' ↔ i.isBody = true := by
  cases hb : i.isBody with
  | true => simp [indented, hb, String.toList_append]
  | false =>
    have htext : i.indented = i.text := by simp [indented, hb]
    rw [htext]
    constructor
    · intro hhead
      exact absurd (List.mem_of_head? hhead) (not_mem_text h (by decide) (by decide))
    · exact fun hfalse => absurd hfalse Bool.false_ne_true

theorem not_mem_indented {i : Instr} (h : i.Unspaced) : '\n' ∉ i.indented.toList := by
  have htext := not_mem_text h (c := '\n') (by decide) (by decide)
  unfold indented
  split <;> simp [String.toList_append, htext]

/-- The text of a line behind its indentation. -/
def unindented (line : String) : String := String.ofList (line.toList.dropWhile (· = '\t'))

theorem unindented_indented {i : Instr} (h : i.Unspaced) : unindented i.indented = i.text := by
  have htext : i.text.toList.dropWhile (· = '\t') = i.text.toList := by
    have htab := not_mem_text h (c := '\t') (by decide) (by decide)
    cases hlist : i.text.toList with
    | nil => rfl
    | cons c cs =>
      rw [hlist] at htab
      exact List.dropWhile_cons_of_neg (by simpa using Ne.symm (List.ne_of_not_mem_cons htab))
  unfold unindented indented
  split <;> simp [String.toList_append, htext]

/-- The instruction that stands on a line, if the line is as the instruction would be written. -/
def ofLine? (line : String) : Option Instr :=
  (ofWords? (pieces ' ' (unindented line))).filter (·.indented = line)

/-- **An instruction is read from its own line, and from no other.** -/
theorem ofLine?_eq_some_iff {i : Instr} (h : i.Unspaced) {line : String} :
    ofLine? line = some i ↔ line = i.indented := by
  unfold ofLine?
  rw [Option.filter_eq_some_iff, decide_eq_true_eq]
  constructor
  · exact fun hread => hread.2.symm
  · rintro rfl
    have hblank : ∀ w ∈ i.words, ' ' ∉ w.toList :=
      fun w hw => (words_solid h w hw).not_mem (by decide)
    have hwords : pieces ' ' i.text = i.words := by
      rw [text_eq_intercalate]
      exact pieces_intercalate hblank (by cases i <;> simp [words])
    rw [unindented_indented h, hwords, ofWords?_words]
    exact ⟨rfl, rfl⟩

end Instr

/-! ## Code -/

/-- The listing of code that is emitted into an empty listing. -/
def emitted (code : List Instr) : Listing := code.foldl Listing.instr Listing.empty

/-- The lines of a text. -/
def lines (text : String) : List String := pieces '\n' text

/-- The code that a text is the text of: every line is that of an instruction, and ends. -/
def decode (text : String) : Option (List Instr) :=
  if (lines text).getLast? = some "" then (lines text).dropLast.mapM Instr.ofLine? else none

theorem text_emitted (code : List Instr) : (emitted code).text = linesOf code := by
  have hfold : ∀ l : Listing, (code.foldl Listing.instr l).text = l.text ++ linesOf code := by
    induction code with
    | nil => exact fun l => (String.append_empty).symm
    | cons i code ih =>
      intro l
      rw [List.foldl_cons, ih, Listing.text_instr, linesOf, String.append_assoc]
  rw [emitted, hfold, Listing.text_empty, String.empty_append]

/-- Code is its lines, with an end of line behind each. -/
theorem linesOf_eq_intercalate (code : List Instr) :
    linesOf code = "\n".intercalate (code.map Instr.indented ++ [""]) := by
  induction code with
  | nil => rfl
  | cons i code ih =>
    have hline : i.line = i.indented ++ "\n" := rfl
    rw [linesOf, ih, hline]
    cases code <;> simp [String.intercalate_cons_cons]

theorem lines_eq_iff {code : List Instr} (h : ∀ i ∈ code, i.Unspaced) {text : String} :
    lines text = code.map Instr.indented ++ [""] ↔ text = (emitted code).text := by
  rw [text_emitted, linesOf_eq_intercalate]
  constructor
  · intro hlines
    rw [← hlines]
    exact (intercalate_pieces '\n' text).symm
  · rintro rfl
    refine pieces_intercalate ?_ (by simp)
    intro line hline
    rcases List.mem_append.mp hline with hline | hline
    · obtain ⟨i, hi, rfl⟩ := List.mem_map.mp hline
      exact Instr.not_mem_indented (h i hi)
    · rw [List.mem_singleton.mp hline]
      decide

theorem mapM_ofLine?_eq_some_iff {code : List Instr} (h : ∀ i ∈ code, i.Unspaced)
    {ls : List String} : ls.mapM Instr.ofLine? = some code ↔ ls = code.map Instr.indented := by
  induction ls generalizing code with
  | nil => cases code <;> simp
  | cons line ls ih =>
    cases code with
    | nil => simp [Option.bind_eq_some_iff]
    | cons i code =>
      have hi := h i List.mem_cons_self
      have hcode : ls.mapM Instr.ofLine? = some code ↔ ls = code.map Instr.indented :=
        ih fun j hj => h j (List.mem_cons_of_mem i hj)
      rw [List.map_cons, List.cons.injEq, ← Instr.ofLine?_eq_some_iff hi, ← hcode]
      simp [List.mapM_cons, Option.bind_eq_some_iff]

/-- **Reading accepts the text of code, and nothing else.** -/
theorem decode_eq_some_iff {code : List Instr} (h : ∀ i ∈ code, i.Unspaced) {text : String} :
    decode text = some code ↔ text = (emitted code).text := by
  rw [← lines_eq_iff h]
  unfold decode
  constructor
  · intro hread
    split at hread
    · next hlast =>
      rw [mapM_ofLine?_eq_some_iff h] at hread
      rw [← hread]
      exact (List.dropLast_append_getLast? "" hlast).symm
    · cases hread
  · intro hlines
    rw [hlines, List.getLast?_concat, if_pos rfl, List.dropLast_concat]
    exact (mapM_ofLine?_eq_some_iff h).mpr rfl

/-- **The text of code is unambiguous.** If no label holds a blank, the text of code is read as this
code, which is read from no other text; every instruction is one line, which begins with a tab just
if the instruction stands inside a function; and other code has another text. -/
theorem emitted_text_unambiguous {code : List Instr} (h : ∀ i ∈ code, i.Unspaced) :
    (∀ text, decode text = some code ↔ text = (emitted code).text) ∧
    lines (emitted code).text = code.map Instr.indented ++ [""] ∧
    (∀ i ∈ code, i.indented.toList.head? = some '\t' ↔ i.isBody = true) ∧
    ∀ code' : List Instr, (∀ i ∈ code', i.Unspaced) →
      (emitted code).text = (emitted code').text → code = code' := by
  refine ⟨fun text => decode_eq_some_iff h, (lines_eq_iff h).mpr rfl,
    fun i hi => Instr.head_indented (h i hi), fun code' h' htext => ?_⟩
  have hread : decode (emitted code).text = some code := (decode_eq_some_iff h).mpr rfl
  have hread' : decode (emitted code).text = some code' := (decode_eq_some_iff h').mpr htext
  exact Option.some.inj (hread.symm.trans hread')

/-- One instruction of each kind, with labels that look like other parts of instructions. -/
def Counter.masquerade : List Instr :=
  [.global ⟨"store"⟩, .declare ⟨"()"⟩, .define ⟨""⟩, .alloca ⟨"%t0"⟩, .store (.imm (-5)) ⟨"i32*"⟩,
    .load ⟨0⟩ ⟨"x,"⟩, .binary ⟨1⟩ .sub (.reg ⟨0⟩) (.imm (-2147483648)),
    .call ⟨2⟩ ⟨"f(i32"⟩ (.reg ⟨1⟩), .ret, .close]

/-- They are read back from their text. -/
theorem emitted_text_unambiguous_masquerade :
    (∀ i ∈ Counter.masquerade, i.Unspaced) ∧
      decode (emitted Counter.masquerade).text = some Counter.masquerade ∧
      (lines (emitted Counter.masquerade).text).length = 11 := by
  have hlabels : ∀ i ∈ Counter.masquerade, i.Unspaced := by decide
  obtain ⟨hread, hlines, -, -⟩ := emitted_text_unambiguous hlabels
  exact ⟨hlabels, (hread _).mpr rfl, by rw [hlines]; rfl⟩

end RegisterCode
