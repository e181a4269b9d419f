/- Reckon.Proofs.Program.Kind — a fault's kind tells the stage that failed

A text is scanned and parsed, its tree is walked, the tokens are reordered, and the program is
evaluated.  The first two stages make faults of form only (`kind_of_parse`) and the walk makes
faults of meaning only, so the kind of a fault says whether there was a tree.  Reordering does not
fail.  Of the faults of an evaluation a compiled program has only the division by a zero, and
where it has that is told from the tokens (`evaluate_eq_divisionByZero_iff`).
-/
import Reckon.Proofs.Expr.Traversal
import Reckon.Proofs.Expr.Viable
import Reckon.Proofs.Fault.Length
import Reckon.Proofs.Postfix.FirstFault

namespace Reckon
set_option autoImplicit false

/-! ## Faults of form -/

namespace Expr

/-- What is not parsed has a fault of form, whether it shows a lexeme or the end of the text. -/
theorem kind_of_ofLexemes {lexemes : List Placed} {fault : SourceFault}
    (failed : ofLexemes lexemes = .error fault) : fault.kind = .invalidExpression := by
  have agrees := agrees_ofLexemes lexemes
  rw [failed] at agrees
  cases agrees with
  | stuck _ _ _ shown => cases shown <;> rfl
  | ended _ _ early => cases early <;> rfl

theorem kind_of_parse {source : String} {fault : SourceFault}
    (failed : parse source = .error fault) : fault.kind = .invalidExpression := by
  cases scanned : Lexeme.scan source with
  | error fault' =>
    obtain rfl : fault' = fault := by simpa [parse, scanned, bind, Except.bind] using failed
    obtain ⟨before, c, after, -, rfl⟩ := Lexeme.scan_eq_error scanned
    rfl
  | ok lexemes =>
    rw [parse_eq_ofLexemes scanned] at failed
    exact kind_of_ofLexemes failed

end Expr

/-! ## Divisions by zero -/

namespace Postfix

/-- An evaluation fails for a division by zero where it comes to one, and nowhere else. -/
theorem evaluate_eq_divisionByZero_iff (tokens : List Token) (index : Nat) :
    evaluate tokens = .error (.divisionByZero index) ↔
      FaultAt tokens index (.divisionByZero index) := by
  constructor
  · intro failed
    have faulty : ∃ earlier fault, FaultAt tokens earlier fault := by
      by_contra none
      have sound : SoundBefore tokens tokens.length :=
        fun earlier _ fault wrong => none ⟨earlier, fault, wrong⟩
      have ends := evaluate_of_sound sound
      rw [failed] at ends
      split at ends
      · obtain ⟨x, same⟩ := ends
        cases same
      · obtain ⟨count, -, same⟩ := ends
        cases same
    -- The evaluation stops at the first token with which something is wrong.
    classical
    obtain ⟨fault, wrong⟩ := Nat.find_spec faulty
    have sound : SoundBefore tokens (Nat.find faulty) :=
      fun earlier before fault wrong => Nat.find_min faulty before ⟨fault, wrong⟩
    have stopped := evaluate_eq_error_of_faultAt wrong sound []
    rw [List.append_nil, failed] at stopped
    cases stopped
    generalize Nat.find faulty = first at wrong
    cases wrong with
    | zero stands reached isZero => exact .zero stands reached isZero
  · intro wrong
    cases wrong with
    | @zero right left others stands reached isZero =>
      obtain ⟨bound, there⟩ := List.getElem?_eq_some_iff.mp stands
      have parts : tokens = tokens.take index ++ .operation .div :: tokens.drop (index + 1) := by
        rw [← there, ← List.drop_eq_getElem_cons bound, List.take_append_drop]
      have ran : run .empty 0 tokens = .error (.divisionByZero index) := by
        rw [parts, run_append, reached]
        simp only [List.length_take_of_le (Nat.le_of_lt bound), Nat.zero_add]
        rw [run_operation, if_pos ⟨rfl, isZero⟩]
      rw [evaluate, ran]

end Postfix

/-! ## Stages -/

namespace Program
variable {source : String}

theorem compile_of_parse_error {fault : SourceFault} (failed : Expr.parse source = .error fault) :
    compile source = .error fault := by
  simp [compile, readingOrder, failed, bind, Except.bind]

theorem compile_of_inOrder_error {tree : Expr} {fault : SourceFault}
    (parsed : Expr.parse source = .ok tree) (failed : tree.inOrder = .error fault) :
    compile source = .error fault := by
  simp [compile, readingOrder, parsed, failed, bind, Except.bind]

/-- A text that is refused has no tree, or its tree has no tokens. -/
theorem compile_error_cases {fault : SourceFault} (refused : compile source = .error fault) :
    Expr.parse source = .error fault ∧ fault.kind = .invalidExpression ∨
      ∃ tree, Expr.parse source = .ok tree ∧ tree.inOrder = .error fault ∧
        fault.kind = .unknownLiteral := by
  rcases Expr.stage_of_readingOrder (Expr.readingOrder_of_compile refused) with
    unscanned | ⟨lexemes, scanned, stopped | ⟨tree, read, failed⟩⟩
  · have failed := Expr.parse_of_scan_error unscanned
    exact .inl ⟨failed, Expr.kind_of_parse failed⟩
  · have failed := (Expr.parse_eq_ofLexemes scanned).trans stopped
    exact .inl ⟨failed, Expr.kind_of_parse failed⟩
  · have parsed := (Expr.parse_eq_ofLexemes scanned).trans read
    exact .inr ⟨tree, parsed, failed, Expr.kind_of_inOrder failed⟩

/-- A fault of form is the parser's. -/
theorem invalidExpression_iff (source : String) :
    (∃ fault, compile source = .error fault ∧ fault.kind = .invalidExpression) ↔
      ∃ fault, Expr.parse source = .error fault := by
  constructor
  · rintro ⟨fault, refused, form⟩
    rcases compile_error_cases refused with ⟨failed, -⟩ | ⟨_, -, -, meaning⟩
    · exact ⟨fault, failed⟩
    · cases form.symm.trans meaning
  · rintro ⟨fault, failed⟩
    exact ⟨fault, compile_of_parse_error failed, Expr.kind_of_parse failed⟩

/-- A fault of meaning is the walk's, which comes to nothing below a prefix operator. -/
theorem unknownLiteral_iff (source : String) :
    (∃ fault, compile source = .error fault ∧ fault.kind = .unknownLiteral) ↔
      ∃ tree, Expr.parse source = .ok tree ∧ ∃ node ∈ tree.exposed, ¬Expr.Supported node := by
  constructor
  · rintro ⟨fault, refused, meaning⟩
    rcases compile_error_cases refused with ⟨-, form⟩ | ⟨tree, parsed, failed, -⟩
    · cases form.symm.trans meaning
    · obtain ⟨node, member, shown⟩ := Expr.exists_exposed failed
      exact ⟨tree, parsed, node, member, (Expr.not_supported_iff node).mpr ⟨fault, shown⟩⟩
  · rintro ⟨tree, parsed, node, member, unsupported⟩
    cases flat : tree.inOrder with
    | ok tokens =>
      have all := (Expr.inOrder_isOk_iff_exposed tree).mp ⟨tokens, flat⟩
      exact absurd (all node member) unsupported
    | error fault =>
      exact ⟨fault, compile_of_inOrder_error parsed flat, Expr.kind_of_inOrder flat⟩

/-- A fault of the program is a division by zero that its evaluation comes to. -/
theorem invalidPostfix_iff (source : String) :
    (∃ fault, calculate source = .error fault ∧ fault.kind = .invalidPostfix) ↔
      ∃ program, compile source = .ok program ∧
        ∃ index, Postfix.FaultAt program.tokens index (.divisionByZero index) := by
  simp only [← Postfix.evaluate_eq_divisionByZero_iff]
  cases compiled : compile source with
  | error refused =>
    have kind : (CalcFault.source refused).kind ≠ .invalidPostfix := by
      intro run
      rcases compile_error_cases compiled with ⟨-, form⟩ | ⟨-, -, -, meaning⟩
      · cases form.symm.trans run
      · cases meaning.symm.trans run
    simp [calculate, compiled, kind]
  | ok program =>
    cases evaluated : program.evaluate with
    | ok x =>
      have value : Postfix.evaluate program.tokens = .ok x := evaluated
      simp [calculate, compiled, evaluated, value]
    | error fault =>
      obtain ⟨index, rfl, -⟩ := divisionByZero_of_compile compiled evaluated
      have stopped : Postfix.evaluate program.tokens = .error (.divisionByZero index) := evaluated
      simp [calculate, compiled, evaluated, stopped, CalcFault.kind, RunFault.kind]

/-- **The kind of a fault tells the stage.**  Compiling fails with an invalid expression if and
only if parsing fails, and then with the parser's fault, whatever else is wrong with the text; with
an unknown literal if and only if there is a tree and a node of it that is not computed, under no
prefix operator; and never with an unknown token.  Calculating fails with an invalid program if and
only if the text compiles and the evaluation comes to a division by a zero of either sign. -/
theorem kind_tells_stage (source : String) :
    ((∃ fault, compile source = .error fault ∧ fault.kind = .invalidExpression) ↔
        ∃ fault, Expr.parse source = .error fault) ∧
      (∀ fault, Expr.parse source = .error fault → compile source = .error fault) ∧
      ((∃ fault, compile source = .error fault ∧ fault.kind = .unknownLiteral) ↔
        ∃ tree, Expr.parse source = .ok tree ∧ ∃ node ∈ tree.exposed, ¬Expr.Supported node) ∧
      (∀ fault, compile source = .error fault → fault.kind ≠ .unknownToken) ∧
      ((∃ fault, calculate source = .error fault ∧ fault.kind = .invalidPostfix) ↔
        ∃ program, compile source = .ok program ∧
          ∃ index, Postfix.FaultAt program.tokens index (.divisionByZero index)) := by
  refine ⟨invalidExpression_iff source, fun fault failed => compile_of_parse_error failed,
    unknownLiteral_iff source, fun fault refused token => ?_, invalidPostfix_iff source⟩
  rcases compile_error_cases refused with ⟨-, form⟩ | ⟨-, -, -, meaning⟩
  · cases form.symm.trans token
  · cases meaning.symm.trans token

/-- A bad literal in front does not hide what is wrong among arguments that are thrown away. -/
theorem kind_tells_stage_argument :
    let fault : SourceFault := .unexpectedLexeme "')'" 10
    Expr.parse "0x1+f(2,3*)" = .error fault ∧ compile "0x1+f(2,3*)" = .error fault ∧
      fault.kind ≠ .unknownToken ∧
      ∃ fault', compile "0x1+f(2,3*)" = .error fault' ∧ fault'.kind = .invalidExpression := by
  intro fault
  have failed : Expr.parse "0x1+f(2,3*)" = .error fault := by cbv
  obtain ⟨form, wins, -, never, -⟩ := kind_tells_stage "0x1+f(2,3*)"
  exact ⟨failed, wins fault failed, never fault (wins fault failed), form.mpr ⟨fault, failed⟩⟩

end Program
end Reckon
