/- Reckon.Proofs.Program.Text — a program is read back from its text

A program's text is its tokens with single blanks between them.  Every token's
text is one word (`words_intercalate`), and a finite value's text is read as
that value and as no operation (`Token.read_text`).  Programs have only finite
values, whichever way they are obtained: literals out of range do not compile,
and words that are read as infinite are refused.  So the text of a program that
was compiled or read is read as the same program, bit for bit.
-/
import Reckon.Proofs.Number.Text
import Reckon.Proofs.Program.Compile

namespace Reckon
set_option autoImplicit false

/-! ## Words -/

namespace Text

/-- The text has a character, and none of its characters is a blank. -/
structure IsWord (word : List Char) : Prop where
  nonempty : word ≠ []
  solid : ∀ c ∈ word, isBlank c = false

theorem runs_of_solid {word : List Char} (solid : ∀ c ∈ word, isBlank c = false) :
    runs word = (word, []) := by
  induction word with
  | nil => rfl
  | cons c word ih =>
    have first : isBlank c = false := solid c List.mem_cons_self
    have others := ih fun d member => solid d (List.mem_cons_of_mem c member)
    have step : runs (c :: word) = if isBlank c then ([], closeRun (runs word).1 (runs word).2)
      else (c :: (runs word).1, (runs word).2) := rfl
    rw [step, first, others]
    rfl

theorem words_of_isWord {word : List Char} (one : IsWord word) : words word = [word] := by
  rw [words, runs_of_solid one.solid, closeRun, List.isEmpty_eq_false_iff.mpr one.nonempty]
  rfl

theorem isWord_singleton {c : Char} (solid : isBlank c = false) : IsWord [c] :=
  ⟨List.cons_ne_nil c [], fun _ member => List.mem_singleton.mp member ▸ solid⟩

/-- Words that are joined by blanks are the words of what they are joined to. -/
theorem words_intercalate {texts : List (List Char)} (each : ∀ text ∈ texts, IsWord text) :
    words ([' '].intercalate texts) = texts := by
  induction texts with
  | nil => rfl
  | cons first texts ih =>
    have head : IsWord first := each first List.mem_cons_self
    have tail := ih fun text member => each text (List.mem_cons_of_mem first member)
    cases texts with
    | nil => rw [List.intercalate_singleton, words_of_isWord head]
    | cons second texts =>
      rw [List.intercalate_cons_cons, List.append_assoc, List.singleton_append,
        words_append_blank first ' ' _ (by decide), words_of_isWord head, tail]
      rfl

end Text

/-! ## Tokens -/

namespace Token

theorem isBlank_of_isDigit {c : Char} (digit : Decimal.isDigit c = true) :
    Text.isBlank c = false := by
  have range : 48 ≤ c.toNat ∧ c.toNat ≤ 57 := by
    simpa [Decimal.isDigit, Char.le_def, UInt32.le_iff_toNat_le] using digit
  simp [Text.isBlank, Text.blankRanges]
  omega

/-- A token's text is one word. -/
theorem isWord_text {token : Token} (finite : ∀ x, token = .value x → x.isFinite = true) :
    Text.IsWord token.text.toList := by
  cases token with
  | value x =>
    have regular : x.isFinite = true := finite x rfl
    refine ⟨?_, ?_⟩
    · -- The empty text would not be read back.
      intro empty
      have unwritten : Number.text x = "" := String.toList_eq_nil_iff.mp empty
      have nothing : Number.read? "" = none := by cbv
      cases nothing.symm.trans (unwritten ▸ Number.read?_text regular)
    · intro c member
      rcases Number.mem_text regular member with digit | rfl | rfl
      · exact isBlank_of_isDigit digit
      · decide
      · decide
  | operation op => cases op <;> exact Text.isWord_singleton (by decide)
  | leftParen => exact Text.isWord_singleton (by decide)
  | rightParen => exact Text.isWord_singleton (by decide)

/-- No symbol is a number. -/
theorem read?_symbol : ∀ word ∈ ["+", "-", "*", "/", "(", ")"], Number.read? word = none := by
  simp only [List.forall_mem_cons]
  refine ⟨by cbv, by cbv, by cbv, by cbv, by cbv, by cbv, ?_⟩
  exact List.forall_mem_nil _

/-- A word that is read as a number is read as a value. -/
theorem read_of_read? {word : String} {x : Float} (found : Number.read? word = some x) :
    read word = .ok (.value x) := by
  unfold read
  split
  case h_7 => rw [found]
  all_goals cases (read?_symbol _ (by simp)).symm.trans found

/-- A token is read back from its text. -/
theorem read_text {token : Token} (finite : ∀ x, token = .value x → x.isFinite = true) :
    read token.text = .ok token := by
  cases token with
  | value x => exact read_of_read? (Number.read?_text (finite x rfl))
  | operation op => cases op <;> rfl
  | leftParen => rfl
  | rightParen => rfl

/-- What is read is finite. -/
theorem isFinite_of_read {word : String} {x : Float} (accepted : read word = .ok (.value x)) :
    x.isFinite = true := by
  unfold read at accepted
  split at accepted
  case h_7 =>
    split at accepted
    case h_1 found =>
      cases accepted
      exact Number.isFinite_of_read? found
    case h_2 => cases accepted
  all_goals cases accepted

end Token

/-! ## Finite values -/

namespace Expr

theorem isFinite_of_literalValue {form : NumberForm} {text : String} {position : Nat} {x : Float}
    (valued : literalValue form text position = .ok x) : x.isFinite = true := by
  unfold literalValue at valued
  cases form with
  | integer =>
    dsimp only at valued
    split at valued
    case h_1 found =>
      cases valued
      exact Number.isFinite_ofInteger (Number.natAbs_le_of_readInteger? found)
    case h_2 => cases valued
  | real =>
    dsimp only at valued
    split at valued
    case h_1 found =>
      cases valued
      exact Number.isFinite_of_read? found
    case h_2 => cases valued
  | other => cases valued

/-- A formula has the values of its tree's literals, all of them finite. -/
theorem isFinite_of_mem_postOrder {tree : Expr} {formula : Formula}
    (computed : tree.formula = .ok formula) {x : Float} (member : .value x ∈ formula.postOrder) :
    x.isFinite = true := by
  induction tree generalizing formula with
  | literal form text position =>
    obtain ⟨y, valued, rfl⟩ := formula_literal_eq_ok computed
    obtain rfl : x = y := by simpa [Formula.postOrder] using member
    exact isFinite_of_literalValue valued
  | group inner position ih =>
    obtain ⟨contents, inside, rfl⟩ := formula_group_eq_ok computed
    exact ih inside member
  | binary left op right position ihLeft ihRight =>
    obtain ⟨operation, before, after, -, leftSide, rightSide, rfl⟩ :=
      formula_binary_eq_ok computed
    have side : .value x ∈ before.postOrder ∨ .value x ∈ after.postOrder := by
      simpa [Formula.postOrder] using member
    rcases side with inLeft | inRight
    · exact ihLeft leftSide inLeft
    · exact ihRight rightSide inRight
  | signed op operand position _ => cases computed
  | name text position => cases computed
  | call callee position => cases computed

end Expr

/-! ## Programs -/

namespace Program

/-- All values of the program are finite. -/
def Finite (program : Program) : Prop :=
  ∀ x, Token.value x ∈ program.tokens → x.isFinite = true

theorem finite_of_compile {source : String} {program : Program}
    (compiled : compile source = .ok program) : program.Finite := by
  intro x member
  obtain ⟨tree, formula, -, computed, rfl⟩ := (compile_eq_ok_iff source program).mp compiled
  exact Expr.isFinite_of_mem_postOrder computed member

/-- The results stand for the items in order. -/
theorem mapM_eq_ok_iff {ε α β : Type} (f : α → Except ε β) (items : List α) (results : List β) :
    items.mapM f = .ok results ↔ List.Forall₂ (fun x y => f x = .ok y) items results := by
  induction items generalizing results with
  | nil => simp [pure, Except.pure]
  | cons x items ih =>
    rw [List.mapM_cons, List.forall₂_cons_left_iff]
    cases first : f x with
    | error fault => simp [bind, Except.bind]
    | ok y =>
      cases others : items.mapM f with
      | error fault => simp [bind, Except.bind, others, ← ih]
      | ok ys => simp [bind, Except.bind, others, ← ih, pure, Except.pure, eq_comm]

/-- A text is read as the tokens that its words are read as, one by one. -/
theorem read_eq_ok_iff (source : String) (tokens : List Token) :
    read source = .ok ⟨tokens⟩ ↔
      List.Forall₂ (fun word token => Token.read (String.ofList word) = .ok token)
        (Text.words source.toList) tokens := by
  rw [← mapM_eq_ok_iff, read]
  cases (Text.words source.toList).mapM fun word => Token.read (String.ofList word) with
  | error fault => simp [bind, Except.bind]
  | ok tokens => simp [bind, Except.bind, pure, Except.pure]

theorem finite_of_read {source : String} {program : Program}
    (accepted : read source = .ok program) : program.Finite := by
  have related := (read_eq_ok_iff source program.tokens).mp accepted
  intro x member
  generalize Text.words source.toList = words at related
  generalize program.tokens = tokens at related member
  induction related with
  | nil => cases member
  | cons one _ ih =>
    rcases List.mem_cons.mp member with rfl | later
    · exact Token.isFinite_of_read one
    · exact ih later

theorem words_text {program : Program} (finite : program.Finite) :
    Text.words program.text.toList = program.tokens.map fun token => token.text.toList := by
  rw [text, String.toList_intercalate, List.map_map]
  refine Text.words_intercalate ?_
  intro word member
  obtain ⟨token, present, rfl⟩ := List.mem_map.mp member
  exact Token.isWord_text fun x same => finite x (same ▸ present)

/-- A program with finite values is read back from its text. -/
theorem read_text {program : Program} (finite : program.Finite) :
    read program.text = .ok program := by
  rw [read_eq_ok_iff, words_text finite, List.forall₂_map_left_iff, List.forall₂_same]
  intro token member
  rw [String.ofList_toList]
  exact Token.read_text fun x same => finite x (same ▸ member)

/-- **A program is read back from its text.**  The programs that are read back from their
texts, with the same bits in every value, are those that have finite values only.  Such is
every program that a text is compiled to, or read as.  So the text of a compiled expression
has the expression's value, or its fault. -/
theorem read_text_of_compile_or_read (source : String) :
    (∀ program, read program.text = .ok program ↔ program.Finite) ∧
    (∀ program, compile source = .ok program ∨ read source = .ok program →
      program.Finite ∧ read program.text = .ok program) ∧
    ∀ program, compile source = .ok program →
      ∃ again, read program.text = .ok again ∧
        calculate source = again.evaluate.mapError CalcFault.run := by
  refine ⟨fun program => ⟨finite_of_read, read_text⟩, ?_, ?_⟩
  · rintro program (compiled | accepted)
    · exact ⟨finite_of_compile compiled, read_text (finite_of_compile compiled)⟩
    · exact ⟨finite_of_read accepted, read_text (finite_of_read accepted)⟩
  · intro program compiled
    refine ⟨program, read_text (finite_of_compile compiled), ?_⟩
    simp only [calculate, compiled]
    cases program.evaluate <;> rfl

/-- The sign of a zero is read back, and a quotient by zero fails at the same place. -/
theorem read_text_zeros :
    (∃ program, read "-0" = .ok program ∧ program.Finite ∧ read program.text = .ok program) ∧
      ∃ program again, compile "1/0" = .ok program ∧ read program.text = .ok again ∧
        calculate "1/0" = again.evaluate.mapError CalcFault.run ∧
        calculate "1/0" = .error (.run (.divisionByZero 2)) := by
  have written : Number.text (Number.ofParts true 0) = "-0" := by decide +kernel
  have zero : Number.read? "-0" = some (Number.ofParts true 0) :=
    written ▸ Number.read?_text (Number.isFinite_ofParts (by decide))
  have accepted : read "-0" = .ok ⟨[.value (Number.ofParts true 0)]⟩ := by
    refine (read_eq_ok_iff _ _).mpr ?_
    have words : Text.words "-0".toList = ["-0".toList] := by cbv
    rw [words, List.forall₂_cons, String.ofList_toList]
    exact ⟨Token.read_of_read? zero, .nil⟩
  let tree : Expr := .binary (.literal .integer "1" 0) .div (.literal .integer "0" 2) 1
  let formula : Formula := .node (.value (Number.ofInteger 1)) .div (.value (Number.ofInteger 0))
  have one : Number.readInteger? "1" = some 1 := by cbv
  have nought : Number.readInteger? "0" = some 0 := by cbv
  have parsed : Expr.parse "1/0" = .ok tree := by cbv
  have computed : tree.formula = .ok formula := by
    simp [tree, formula, Expr.formula, Expr.literalValue, one, nought, Except.map,
      BinaryOp.operation?]
  have compiled : compile "1/0" = .ok ⟨formula.postOrder⟩ :=
    (compile_eq_ok_iff _ _).mpr ⟨tree, formula, parsed, computed, rfl⟩
  have divisor : Number.IsZero (Number.ofInteger 0) := by decide +kernel
  have failed : calculate "1/0" = .error (.run (.divisionByZero 2)) := by
    simp only [calculate, compiled, evaluate, Postfix.evaluate_postOrder]
    simp [formula, Formula.evaluate, Formula.postOrder, divisor, Except.mapError]
  obtain ⟨again, reread, value⟩ := (read_text_of_compile_or_read "1/0").2.2 _ compiled
  exact ⟨⟨_, accepted, (read_text_of_compile_or_read "-0").2.1 _ (.inr accepted)⟩,
    _, again, compiled, reread, value, failed⟩

end Program
end Reckon
