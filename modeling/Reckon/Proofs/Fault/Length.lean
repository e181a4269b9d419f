/- Reckon.Proofs.Fault.Length — how long the message of a fault is

A message is fixed words, an offset in decimal, and for some causes a lexeme
copied from the text.  Nothing bounds what is copied but the text itself, so a
message can be longer than the text it is about.  It is so by at most 81 bytes
(`utf8ByteSize_message_of_calculate`): what is copied ends where the text ends at
the latest, and an offset grows faster than its digits.
-/
import Reckon.Proofs.Expr.Blame
import Reckon.Proofs.Program.Compile

namespace Reckon
set_option autoImplicit false

/-! ## Pieces -/

/-- A number in decimal takes a byte, and at most one more for every ten that it counts. -/
theorem utf8ByteSize_repr_le (n : Nat) : n.repr.utf8ByteSize ≤ 1 + n / 10 := by
  -- The bound is far from tight, but it is linear, which is all that the sums below need.
  have tens : n / 10 < 10 ^ (n / 10) := Nat.lt_pow_self (by decide)
  have bound : n < 10 ^ (1 + n / 10) := by
    rw [Nat.pow_add]
    omega
  have ascii : ∀ c ∈ Nat.toDigits 10 n, c.utf8Size = 1 := fun c member =>
    Text.utf8Size_of_isDigit c (Nat.isDigit_of_mem_toDigits (by decide) (by decide) member)
  rw [Nat.repr_eq_ofList_toDigits, String.utf8ByteSize_ofList, Text.utf8Len_of_ascii ascii]
  exact Nat.toDigits_length 10 n _ (by omega) bound

namespace SourceFault

theorem utf8ByteSize_located (kind : Fault.Kind) (position : Nat) :
    (located kind position).utf8ByteSize =
      kind.text.utf8ByteSize + 15 + position.repr.utf8ByteSize := by
  have words : " at position ".utf8ByteSize = 13 := rfl
  have colon : ": ".utf8ByteSize = 2 := rfl
  simp only [located, String.utf8ByteSize_append, words, colon]
  omega

/-- The length of a message: its words, the digits of the offset, and what is copied. -/
theorem utf8ByteSize_message (fault : SourceFault) :
    fault.message.utf8ByteSize =
      match fault with
      | strayCharacter text position => 57 + position.repr.utf8ByteSize + text.utf8ByteSize
      | unexpectedLexeme found position => 52 + position.repr.utf8ByteSize + found.utf8ByteSize
      | endOfText => 44
      | unclosedGroup position => 89 + position.repr.utf8ByteSize
      | trailingLexeme found position => 79 + position.repr.utf8ByteSize + found.utf8ByteSize
      | nestingTooDeep position => 65 + position.repr.utf8ByteSize
      | unsupported construct position =>
          48 + position.repr.utf8ByteSize + construct.utf8ByteSize
      | literalOutOfRange literal position =>
          67 + position.repr.utf8ByteSize + literal.utf8ByteSize
      | notDecimal literal position => 57 + position.repr.utf8ByteSize + literal.utf8ByteSize
      | unknownToken word => 18 + word.utf8ByteSize := by
  -- The summands of each case are the sizes of the pieces as the message puts them together.
  cases fault with
  | endOfText => rfl
  | strayCharacter text position =>
    simp only [message, utf8ByteSize_located, String.utf8ByteSize_append]
    change 18 + 15 + position.repr.utf8ByteSize + 22 + text.utf8ByteSize + 2 = _
    omega
  | unexpectedLexeme found position =>
    simp only [message, utf8ByteSize_located, String.utf8ByteSize_append]
    change 18 + 15 + position.repr.utf8ByteSize + 18 + found.utf8ByteSize + 1 = _
    omega
  | unclosedGroup position =>
    simp only [message, String.utf8ByteSize_append]
    change 18 + 55 + position.repr.utf8ByteSize + 16 = _
    omega
  | trailingLexeme found position =>
    simp only [message, utf8ByteSize_located, String.utf8ByteSize_append]
    change 18 + 15 + position.repr.utf8ByteSize + 45 + found.utf8ByteSize + 1 = _
    omega
  | nestingTooDeep position =>
    simp only [message, utf8ByteSize_located, String.utf8ByteSize_append]
    change 18 + 15 + position.repr.utf8ByteSize + 32 = _
    omega
  | unsupported construct position =>
    simp only [message, utf8ByteSize_located, String.utf8ByteSize_append]
    change 15 + 15 + position.repr.utf8ByteSize + construct.utf8ByteSize + 18 = _
    omega
  | literalOutOfRange literal position =>
    simp only [message, utf8ByteSize_located, String.utf8ByteSize_append]
    change 15 + 15 + position.repr.utf8ByteSize + 1 + literal.utf8ByteSize + 36 = _
    omega
  | notDecimal literal position =>
    simp only [message, utf8ByteSize_located, String.utf8ByteSize_append]
    change 15 + 15 + position.repr.utf8ByteSize + 1 + literal.utf8ByteSize + 26 = _
    omega
  | unknownToken word =>
    simp only [message, String.utf8ByteSize_append]
    change 13 + 3 + word.utf8ByteSize + 2 = _
    omega

/-- A construct is named with its operator between quotes, as the lexeme is shown. -/
theorem utf8ByteSize_refused (construct : String) (written : Symbol) :
    (construct ++ " '" ++ String.ofList written.chars ++ "'").utf8ByteSize =
      construct.utf8ByteSize + 1 + (Lexeme.symbol written).shown.utf8ByteSize := by
  have opening : " '".utf8ByteSize = 2 := rfl
  have closing : "'".utf8ByteSize = 1 := rfl
  simp only [Lexeme.shown, String.utf8ByteSize_append, opening, closing]
  omega

/-! ## Messages about a text -/

section Bounds
variable {size : Nat} {lexemes : List Placed}

/-- A lexeme and its offset take little more than the text.  The further behind the lexeme
stands, the shorter it is, and an offset grows faster than its digits. -/
theorem repr_add_shown_le (lie : Lexeme.LieWithin size lexemes) {placed : Placed}
    (member : placed ∈ lexemes) :
    placed.position.repr.utf8ByteSize + placed.lexeme.shown.utf8ByteSize ≤ size + 3 := by
  have digits := utf8ByteSize_repr_le placed.position
  have last := lie.ends placed member
  omega

/-- It is a byte less for all lexemes but the first. -/
theorem repr_add_shown_le_of_tail (lie : Lexeme.LieWithin size lexemes) {placed : Placed}
    (behind : placed ∈ lexemes.tail) :
    placed.position.repr.utf8ByteSize + placed.lexeme.shown.utf8ByteSize ≤ size + 2 := by
  have digits := utf8ByteSize_repr_le placed.position
  have last := lie.ends placed (List.mem_of_mem_tail behind)
  have first := lie.position_pos behind
  omega

/-- A fault that is found in the lexemes of so many bytes. -/
theorem utf8ByteSize_message_of_foundIn (lie : Lexeme.LieWithin size lexemes)
    {fault : SourceFault} (found : fault.FoundIn lexemes) :
    fault.message.utf8ByteSize ≤ max (size + 81) 90 := by
  have quote : "'".utf8ByteSize = 1 := rfl
  have quoted := Lexeme.utf8ByteSize_quoted
  rw [utf8ByteSize_message]
  cases found with
  | ended => exact Nat.le_trans (by decide) (Nat.le_max_right _ _)
  | unexpected member =>
    have copied := repr_add_shown_le lie member
    simp only
    omega
  | unseparated behind =>
    have copied := repr_add_shown_le_of_tail lie behind
    have words : "expected ',' or ')', found ".utf8ByteSize = 27 := rfl
    simp only [String.utf8ByteSize_append, words]
    omega
  | trailing behind =>
    have copied := repr_add_shown_le_of_tail lie behind
    simp only
    omega
  | @unclosed position member =>
    -- Only the offset is written, and the words are more than elsewhere.
    have digits := utf8ByteSize_repr_le position
    have last := lie.ends _ member
    simp only [Lexeme.shown, quoted] at last ⊢
    omega
  | tooDeep member _ =>
    have copied := repr_add_shown_le lie member
    simp only at copied ⊢
    omega
  | operator member _ =>
    have copied := repr_add_shown_le lie member
    have words : "operator".utf8ByteSize = 8 := rfl
    simp only [Expr.refuse, utf8ByteSize_refused, words] at copied ⊢
    omega
  | signed member =>
    have copied := repr_add_shown_le lie member
    have words : "unary operator".utf8ByteSize = 14 := rfl
    simp only [Expr.refuse, utf8ByteSize_refused, words] at copied ⊢
    omega
  | name member =>
    have copied := repr_add_shown_le lie member
    have words : "identifier '".utf8ByteSize = 12 := rfl
    simp only [Lexeme.shown, String.utf8ByteSize_append, words, quote] at copied ⊢
    omega
  | call member =>
    have copied := repr_add_shown_le lie member
    have words : "call to '".utf8ByteSize = 9 := rfl
    simp only [Lexeme.shown, String.utf8ByteSize_append, words, quote] at copied ⊢
    omega
  | outOfRange member _ =>
    have copied := repr_add_shown_le lie member
    simp only [Lexeme.shown, quoted] at copied ⊢
    omega
  | notDecimal member =>
    have copied := repr_add_shown_le lie member
    simp only [Lexeme.shown, quoted] at copied ⊢
    omega

end Bounds

/-- A fault of a text on its way to tokens. -/
theorem utf8ByteSize_message_of_readingOrder {source : String} {fault : SourceFault}
    (failed : readingOrder source = .error fault) :
    fault.message.utf8ByteSize ≤ max (source.utf8ByteSize + 81) 90 := by
  rcases Expr.readingOrder_eq_error failed with ⟨before, c, after, whole, rfl⟩ |
    ⟨lexemes, scanned, found⟩
  · have size : String.utf8Len before + (String.utf8Len after + c.utf8Size) =
        source.utf8ByteSize := by
      rw [← String.utf8Len_cons, ← String.utf8Len_append, ← whole, String.utf8Len_toList]
    have digits := utf8ByteSize_repr_le before.length
    have offset := Text.length_le_utf8Len before
    simp only [utf8ByteSize_message, String.utf8ByteSize_singleton]
    omega
  · exact utf8ByteSize_message_of_foundIn (Lexeme.lieWithin_of_scan scanned) found

end SourceFault

/-! ## Messages about a program -/

/-- A formula has no more tokens in postfix order than its text has lexemes. -/
theorem Expr.length_postOrder_le {room : Nat} {category : Category} {lexemes : List Placed}
    {tree : Expr} (derived : Derives room category lexemes tree) {result : Formula}
    (computed : tree.formula = .ok result) : result.postOrder.length ≤ lexemes.length := by
  induction derived generalizing result with
  | tighter _ _ ih => exact ih computed
  | binary position follows member written _ _ ihLeft ihRight =>
    obtain ⟨operation, before, after, -, leftSide, rightSide, rfl⟩ :=
      formula_binary_eq_ok computed
    have left := ihLeft leftSide
    have right := ihRight rightSide
    simp only [Formula.postOrder, List.length_append, List.length_cons, List.length_nil]
    omega
  | literal form text position =>
    obtain ⟨x, -, rfl⟩ := formula_literal_eq_ok computed
    exact Nat.le_refl _
  | group position closing _ ih =>
    obtain ⟨contents, inside, rfl⟩ := formula_group_eq_ok computed
    have fewer := ih inside
    simp only [Formula.postOrder, List.length_cons, List.length_append, List.length_nil]
    omega
  | signed position written _ _ => simp [formula] at computed
  | name text position => simp [formula] at computed
  | call callee arguments position opening closing _ _ _ => simp [formula] at computed

/-- A division by zero stands within the program. -/
theorem Formula.index_lt_of_evaluate {formula : Formula} {index : Nat}
    (failed : formula.evaluate = .error index) : index < formula.postOrder.length := by
  rw [← formula.length_nodes]
  exact (List.findIdx?_eq_some_iff_findIdx_eq.mp ((formula.evaluate_eq_error_iff index).mp failed)).1

/-- Whatever a program fails with that a text compiles to, it is at a place before the end
of the text. -/
theorem Program.divisionByZero_of_compile {source : String} {program : Program}
    {fault : RunFault} (compiled : compile source = .ok program)
    (failed : program.evaluate = .error fault) :
    ∃ index, fault = .divisionByZero index ∧ index < source.utf8ByteSize := by
  obtain ⟨tree, formula, parsed, computed, rfl⟩ := (compile_eq_ok_iff _ _).mp compiled
  obtain ⟨lexemes, scanned, derived⟩ := Expr.derives_of_parse parsed
  rw [evaluate, Postfix.evaluate_postOrder] at failed
  cases evaluated : formula.evaluate with
  | ok x => simp [evaluated, Except.mapError] at failed
  | error index =>
    refine ⟨index, by simpa [evaluated, Except.mapError] using failed.symm, ?_⟩
    calc index < formula.postOrder.length := Formula.index_lt_of_evaluate evaluated
      _ ≤ lexemes.length := Expr.length_postOrder_le derived computed
      _ ≤ source.utf8ByteSize := (Lexeme.lieWithin_of_scan scanned).count

theorem RunFault.utf8ByteSize_divisionByZero (index : Nat) :
    (divisionByZero index).message.utf8ByteSize = 40 + index.repr.utf8ByteSize := by
  simp only [message, String.utf8ByteSize_append]
  change 11 + 2 + (26 + index.repr.utf8ByteSize + 1) = _
  omega

/-- **How long a message can be.**  The message of an expression that has no value is at
most 81 bytes longer than the expression, or 90 bytes long. -/
theorem utf8ByteSize_message_of_calculate {expression : String} {fault : CalcFault}
    (failed : calculate expression = .error fault) :
    fault.message.utf8ByteSize ≤ max (expression.utf8ByteSize + 81) 90 := by
  unfold calculate at failed
  split at failed
  · rename_i stopped
    cases failed
    cases read : readingOrder expression with
    | error fault' =>
      rw [Program.compile, read] at stopped
      cases stopped
      exact SourceFault.utf8ByteSize_message_of_readingOrder read
    | ok tokens =>
      rw [Program.compile_of_readingOrder read] at stopped
      cases stopped
  · rename_i program compiled
    split at failed
    · rename_i stopped
      cases failed
      obtain ⟨index, rfl, within⟩ := Program.divisionByZero_of_compile compiled stopped
      have digits := utf8ByteSize_repr_le index
      rw [CalcFault.message, RunFault.utf8ByteSize_divisionByZero]
      omega
    · cases failed

end Reckon
