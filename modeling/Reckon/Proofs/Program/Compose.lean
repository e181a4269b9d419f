/- Reckon.Proofs.Program.Compose — compiling texts that are put together

A text between parentheses compiles to what it compiles to alone, and two of them with an
operation between them to the tokens of both with the operation behind (`compile_enclosed`,
`compile_joined`): whatever binds loosely inside stays inside.  Parentheses may be nested 128 deep
(`nesting_le_of_compile`), and one more level around a text that uses them all is one too many
(`compile_enclosed_too_deep`).
-/
import Reckon.Proofs.Expr.Nesting
import Reckon.Proofs.Expr.Room
import Reckon.Proofs.Program.Compile

namespace Reckon.Program
set_option autoImplicit false

open Reckon.Expr (Derives Category maxNesting)

/-- How deep the parentheses of a text are nested in each other. -/
def nesting (source : String) : Nat := Postfix.deepest 0 (Text.parentheses source.toList)

/-- A text that compiles is derived, and its parentheses are all the nesting that there is. -/
theorem derives_of_compile {source : String} {program : Program}
    (compiled : compile source = .ok program) :
    ∃ lexemes tree formula, Lexeme.scan source = .ok lexemes ∧
      Derives (nesting source) .or lexemes tree ∧ tree.formula = .ok formula ∧
      program = ⟨formula.postOrder⟩ := by
  obtain ⟨tree, formula, parsed, computed, rfl⟩ := (compile_eq_ok_iff _ _).mp compiled
  obtain ⟨lexemes, scanned, derived⟩ := Expr.derives_of_parse parsed
  refine ⟨lexemes, tree, formula, scanned, ?_, computed, rfl⟩
  rw [nesting, Lexeme.parentheses_of_scan scanned]
  exact Expr.derives_of_formula derived computed

/-- No text compiles whose parentheses are nested deeper than is allowed. -/
theorem nesting_le_of_compile {source : String} {program : Program}
    (compiled : compile source = .ok program) : nesting source ≤ maxNesting := by
  obtain ⟨tree, formula, parsed, -, -⟩ := (compile_eq_ok_iff _ _).mp compiled
  obtain ⟨lexemes, scanned, derived⟩ := Expr.derives_of_parse parsed
  rw [nesting, Lexeme.parentheses_of_scan scanned]
  exact (Expr.fits_of_derives derived).depth

theorem compile_of_derives {source : String} {lexemes : List Placed} {tree : Expr}
    {formula : Formula} (scanned : Lexeme.scan source = .ok lexemes)
    (derived : Derives maxNesting .or lexemes tree) (computed : tree.formula = .ok formula) :
    compile source = .ok ⟨formula.postOrder⟩ := by
  refine (compile_eq_ok_iff _ _).mpr ⟨tree, formula, ?_, computed, rfl⟩
  rw [Expr.parse_eq_ofLexemes scanned, Expr.ofLexemes_eq_ok_iff]
  exact derived

variable {source : String} {program : Program}

/-- Parentheses around a text are one level of nesting. -/
theorem nesting_enclosed (compiled : compile source = .ok program) :
    nesting ("(" ++ source ++ ")") = nesting source + 1 := by
  obtain ⟨lexemes, tree, formula, scanned, derived, -⟩ := derives_of_compile compiled
  have balanced := (Expr.fits_of_derives derived).balanced
  rw [← Lexeme.parentheses_of_scan scanned] at balanced
  have whole : Text.parentheses ("(" ++ source ++ ")").toList =
      .leftParen :: (Text.parentheses source.toList ++ [.rightParen]) := by
    simp [Text.parentheses, Text.parenthesis?]
  rw [nesting, whole, balanced.deepest_enclosed]
  rfl

/-- Parentheses around a text that leaves a level of nesting free do not change the program. -/
theorem compile_enclosed (compiled : compile source = .ok program)
    (free : nesting source < maxNesting) : compile ("(" ++ source ++ ")") = .ok program := by
  obtain ⟨lexemes, tree, formula, scanned, derived, computed, rfl⟩ :=
    derives_of_compile compiled
  have group := (Expr.derives_enclosed derived 0 source.toList.length).mono free
  have enclosed : compile _ = .ok ⟨(Formula.group formula).postOrder⟩ :=
    compile_of_derives (Lexeme.scan_enclosed scanned) (group.of_primary .or)
      (Expr.formula_enclose computed 0)
  exact enclosed

/-- Around a text that leaves none free, they are nested too deeply. -/
theorem compile_enclosed_too_deep (compiled : compile source = .ok program)
    (full : nesting source = maxNesting) :
    ∃ position, compile ("(" ++ source ++ ")") = .error (.nestingTooDeep position) := by
  obtain ⟨lexemes, tree, formula, scanned, derived, -⟩ := derives_of_compile compiled
  have scanned' := Lexeme.scan_enclosed scanned
  have group := (Expr.derives_enclosed derived 0 source.toList.length).of_primary .or
  have deeper : ¬Derives maxNesting .or (Lexeme.enclosed 0 source.toList.length lexemes)
      (tree.enclose 0) := by
    intro shallow
    have depth := (Expr.fits_of_derives shallow).depth
    rw [← Lexeme.parentheses_of_scan scanned', ← nesting, nesting_enclosed compiled, full] at depth
    exact Nat.not_succ_le_self _ depth
  obtain ⟨position, refused⟩ := Expr.ofLexemes_of_deeper group deeper
  refine ⟨position, ?_⟩
  simp [compile, readingOrder, Expr.parse_eq_ofLexemes scanned', refused, bind, Except.bind]

/-- An operation is written by an operator of one of the categories. -/
theorem exists_operator (op : Operation) :
    ∃ category next binary, Category.next? category = some next ∧
      BinaryOp.symbol binary ∈ category.symbols ∧ binary.operation? = some op ∧
      String.ofList binary.symbol.chars = op.symbol := by
  cases op with
  | add => exact ⟨.additive, .multiplicative, .add, rfl, by decide, rfl, rfl⟩
  | sub => exact ⟨.additive, .multiplicative, .sub, rfl, by decide, rfl, rfl⟩
  | mul => exact ⟨.multiplicative, .exponent, .mul, rfl, by decide, rfl, rfl⟩
  | div => exact ⟨.multiplicative, .exponent, .div, rfl, by decide, rfl, rfl⟩

/-- Two texts between parentheses and an operation between them compile to the tokens of both and
the operation behind. -/
theorem compile_joined {before after : String} {first second : Program}
    (compiled : compile before = .ok first) (compiled' : compile after = .ok second)
    (free : nesting before < maxNesting) (free' : nesting after < maxNesting) (op : Operation) :
    compile ("(" ++ before ++ ")" ++ op.symbol ++ "(" ++ after ++ ")") =
      .ok ⟨first.tokens ++ second.tokens ++ [.operation op]⟩ := by
  obtain ⟨lexemes, tree, formula, scanned, derived, computed, rfl⟩ :=
    derives_of_compile compiled
  obtain ⟨lexemes', tree', formula', scanned', derived', computed', rfl⟩ :=
    derives_of_compile compiled'
  obtain ⟨category, next, binary, follows, member, supported, written⟩ := exists_operator op
  rw [← written]
  obtain ⟨between, behind, joined⟩ := Lexeme.scan_joined scanned scanned' binary.symbol
  have left := (Expr.derives_enclosed derived 0 before.toList.length).mono free
  have right := (Expr.derives_enclosed derived' behind after.toList.length).mono free'
  have whole : Derives maxNesting category _ _ :=
    .binary between follows member (BinaryOp.ofSymbol?_symbol binary) (left.of_primary category)
      (right.of_primary next)
  have computedWhole : (Expr.binary (tree.enclose 0) binary (tree'.enclose behind) between).formula =
      .ok (.node (.group formula) op (.group formula')) := by
    rw [Expr.formula, supported]
    simp only [Expr.formula_enclose computed, Expr.formula_enclose computed']
    rfl
  rw [compile_of_derives joined whole.loosest computedWhole]
  simp [Formula.postOrder]

/-- Parentheses around a text may be repeated as long as a level of nesting is left. -/
theorem compile_enclosed_iterate (compiled : compile source = .ok program) {levels : Nat}
    (free : nesting source + levels ≤ maxNesting) :
    compile ((fun inner => "(" ++ inner ++ ")")^[levels] source) = .ok program ∧
      nesting ((fun inner => "(" ++ inner ++ ")")^[levels] source) = nesting source + levels := by
  induction levels with
  | zero => exact ⟨compiled, rfl⟩
  | succ levels ih =>
    obtain ⟨inside, depth⟩ := ih (Nat.le_of_succ_le free)
    rw [Function.iterate_succ_apply']
    exact ⟨compile_enclosed inside (by omega), by rw [nesting_enclosed inside, depth]; rfl⟩

/-- **Texts compile piece by piece.**  A text that compiles, its parentheses nested at most 127
deep, compiles to the same tokens between parentheses; two such texts between parentheses, with an
operation between them, compile to the tokens of the first, those of the second, and the operation.
A text that compiles with parentheses nested 128 deep is nested too deeply between parentheses. -/
theorem compile_pieces :
    (∀ source program, compile source = .ok program → nesting source ≤ 127 →
        compile ("(" ++ source ++ ")") = .ok program) ∧
      (∀ before after first second, compile before = .ok first → compile after = .ok second →
        nesting before ≤ 127 → nesting after ≤ 127 → ∀ op : Operation,
          compile ("(" ++ before ++ ")" ++ op.symbol ++ "(" ++ after ++ ")") =
            .ok ⟨first.tokens ++ second.tokens ++ [.operation op]⟩) ∧
      ∀ source program, compile source = .ok program → nesting source = 128 →
        ∃ position, compile ("(" ++ source ++ ")") = .error (.nestingTooDeep position) := by
  refine ⟨fun source program compiled free => ?_, fun before after first second compiled compiled'
    free free' op => ?_, fun source program compiled full => ?_⟩
  · exact compile_enclosed compiled (Nat.lt_succ_of_le free)
  · exact compile_joined compiled compiled' (Nat.lt_succ_of_le free) (Nat.lt_succ_of_le free') op
  · exact compile_enclosed_too_deep compiled full

/-- A sum keeps to its side of a product, and a number 128 parentheses deep takes no more. -/
theorem compile_pieces_sum :
    ∃ sum one deep position, compile "1+2" = .ok sum ∧ compile "1" = .ok one ∧
      nesting "1+2" ≤ 127 ∧ nesting "1" ≤ 127 ∧ compile "(1+2)" = .ok sum ∧
      compile "(1+2)*(1)" = .ok ⟨sum.tokens ++ one.tokens ++ [.operation .mul]⟩ ∧
      compile deep = .ok one ∧ nesting deep = 128 ∧
      compile ("(" ++ deep ++ ")") = .error (.nestingTooDeep position) := by
  let number : Expr := .literal .integer "1" 0
  let addition : Expr := .binary number .add (.literal .integer "2" 2) 1
  have readOne : Number.readInteger? "1" = some 1 := by cbv
  have readTwo : Number.readInteger? "2" = some 2 := by cbv
  have numberComputed : number.formula = .ok (.value (Number.ofInteger 1)) := by
    simp [number, Expr.formula, Expr.literalValue, readOne, Except.map]
  have additionComputed : addition.formula =
      .ok (.node (.value (Number.ofInteger 1)) .add (.value (Number.ofInteger 2))) := by
    simp [addition, number, Expr.formula, Expr.literalValue, readOne, readTwo, Except.map,
      BinaryOp.operation?]
  have one : compile "1" = .ok _ :=
    (compile_eq_ok_iff _ _).mpr ⟨number, _, by cbv, numberComputed, rfl⟩
  have sum : compile "1+2" = .ok _ :=
    (compile_eq_ok_iff _ _).mpr ⟨addition, _, by cbv, additionComputed, rfl⟩
  have flat : nesting "1" = 0 := by decide
  have flat' : nesting "1+2" = 0 := by decide
  have room : nesting "1" + 128 ≤ maxNesting := by rw [flat]; decide
  obtain ⟨deep, depth⟩ := compile_enclosed_iterate one room
  rw [flat, Nat.zero_add] at depth
  generalize (fun inner : String => "(" ++ inner ++ ")")^[128] "1" = text at deep depth
  obtain ⟨alone, joined, tooDeep⟩ := compile_pieces
  obtain ⟨position, refused⟩ := tooDeep _ _ deep depth
  have group : "(" ++ "1+2" ++ ")" = "(1+2)" := by decide
  have product : "(" ++ "1+2" ++ ")" ++ Operation.mul.symbol ++ "(" ++ "1" ++ ")" = "(1+2)*(1)" := by
    decide
  have inside := alone _ _ sum (by omega)
  have multiplied := joined _ _ _ _ sum one (by omega) (by omega) .mul
  rw [group] at inside
  rw [product] at multiplied
  exact ⟨_, _, text, position, sum, one, by omega, by omega, inside, multiplied, deep, depth,
    refused⟩

end Reckon.Program
