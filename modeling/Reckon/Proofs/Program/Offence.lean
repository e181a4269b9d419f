/- Reckon.Proofs.Program.Offence — the text stands where a fault says it does

A fault with a position names a piece of the text: it quotes it, or says what it is (`Names`).
That piece stands in the text, at the fault's offset in bytes, and it is a whole lexeme of the
text or the character that no lexeme starts with.  A group that is not closed is shown at the last
opening parenthesis of the text that nothing closes.
-/
import Reckon.Proofs.Expr.Leftmost
import Reckon.Proofs.Expr.Unclosed

namespace Reckon
set_option autoImplicit false

open Lexeme.Pattern (lexical)

namespace SourceFault

/-- The text that a fault with a position is about.  Most faults quote it. -/
inductive Names : SourceFault → List Char → Prop where
  | stray (c : Char) (position : Nat) : Names (.strayCharacter (String.singleton c) position) [c]
  | unexpected (text : List Char) (position : Nat) :
      Names (.unexpectedLexeme ("'" ++ String.ofList text ++ "'") position) text
  | unseparated (text : List Char) (position : Nat) :
      Names (.unexpectedLexeme
        ("expected ',' or ')', found " ++ ("'" ++ String.ofList text ++ "'")) position) text
  | trailing (text : List Char) (position : Nat) :
      Names (.trailingLexeme ("'" ++ String.ofList text ++ "'") position) text
  | unclosed (position : Nat) : Names (.unclosedGroup position) ['(']
  | tooDeep {symbol : Symbol} (position : Nat)
      (nests : symbol = .leftParen ∨ ∃ op, PrefixOp.ofSymbol? symbol = some op) :
      Names (.nestingTooDeep position) symbol.chars
  | operator (op : BinaryOp) (position : Nat) :
      Names (Expr.refuse "operator" op.symbol position) op.symbol.chars
  | signed (op : PrefixOp) (position : Nat) :
      Names (Expr.refuse "unary operator" op.symbol position) op.symbol.chars
  | name (text : String) (position : Nat) :
      Names (.unsupported ("identifier '" ++ text ++ "'") position) text.toList
  | call (text : String) (position : Nat) :
      Names (.unsupported ("call to '" ++ text ++ "'") position) text.toList
  | outOfRange (text : String) (position : Nat) :
      Names (.literalOutOfRange text position) text.toList
  | notDecimal (text : String) (position : Nat) : Names (.notDecimal text position) text.toList

theorem shown_eq {lexeme : Lexeme} (solid : lexeme.isBlank = false) :
    lexeme.shown = "'" ++ String.ofList lexeme.spelling ++ "'" := by
  cases lexeme with
  | blank => cases solid
  | number form text | name text => rw [Lexeme.shown, Lexeme.spelling, String.ofList_toList]
  | symbol written => rfl

/-- A fault that is found in lexemes names the one at its position. -/
theorem FoundIn.names {lexemes : List Placed} {fault : SourceFault} {position : Nat}
    (found : fault.FoundIn lexemes) (located : fault.position? = some position)
    (solid : ∀ placed ∈ lexemes, placed.lexeme.isBlank = false) :
    ∃ placed ∈ lexemes, placed.position = position ∧ fault.Names placed.lexeme.spelling := by
  cases found with
  | @unexpected placed member =>
    refine ⟨placed, member, Option.some.inj located, ?_⟩
    rw [shown_eq (solid placed member)]
    exact .unexpected _ _
  | @unseparated placed behind =>
    have member := List.mem_of_mem_tail behind
    refine ⟨placed, member, Option.some.inj located, ?_⟩
    rw [shown_eq (solid placed member)]
    exact .unseparated _ _
  | ended => cases located
  | @trailing placed behind =>
    have member := List.mem_of_mem_tail behind
    refine ⟨placed, member, Option.some.inj located, ?_⟩
    rw [shown_eq (solid placed member)]
    exact .trailing _ _
  | unclosed member => exact ⟨_, member, Option.some.inj located, .unclosed _⟩
  | tooDeep member nests => exact ⟨_, member, Option.some.inj located, .tooDeep _ nests⟩
  | operator member refused => exact ⟨_, member, Option.some.inj located, .operator _ _⟩
  | signed member => exact ⟨_, member, Option.some.inj located, .signed _ _⟩
  | name member => exact ⟨_, member, Option.some.inj located, .name _ _⟩
  | call member => exact ⟨_, member, Option.some.inj located, .call _ _⟩
  | outOfRange member refused => exact ⟨_, member, Option.some.inj located, .outOfRange _ _⟩
  | notDecimal member => exact ⟨_, member, Option.some.inj located, .notDecimal _ _⟩

end SourceFault

namespace Program
open Postfix (Balanced Closes)

/-- The lexemes of a refused text in front of the one that the fault names, and those behind. -/
theorem exists_named {lexemes : List Placed} {fault : SourceFault} {position : Nat}
    (solid : ∀ placed ∈ lexemes, placed.lexeme.isBlank = false)
    (refused : Expr.ofLexemes lexemes = .error fault ∨
      ∃ tree, Expr.ofLexemes lexemes = .ok tree ∧ tree.inOrder = .error fault)
    (located : fault.position? = some position) :
    ∃ front placed rest, lexemes = front ++ placed :: rest ∧ placed.position = position ∧
      fault.Names placed.lexeme.spelling ∧
      (fault = .unclosedGroup position → Balanced (Lexeme.parentheses rest)) := by
  by_cases unclosed : fault = .unclosedGroup position
  · subst unclosed
    rcases refused with stopped | ⟨tree, -, walked⟩
    · obtain ⟨front, rest, same, balanced⟩ := Expr.leftOpen_of_ofLexemes stopped
      exact ⟨front, _, rest, same, rfl, .unclosed position, fun _ => balanced⟩
    · cases Expr.kind_of_inOrder walked
  · obtain ⟨placed, member, stands, names⟩ :=
      (Expr.foundIn_of_refused refused).names located solid
    obtain ⟨front, rest, same⟩ := List.append_of_mem member
    exact ⟨front, placed, rest, same, stands, names, fun same => absurd same unclosed⟩

/-- **A fault names what stands at its position.**  The text that is refused has there, counted in
bytes, exactly what the fault names, and that is one of its lexemes, or the character that no
lexeme starts with.  The group of a fault that says that one is not closed opens with the last
opening parenthesis of the text that no closing one matches. -/
theorem compile_fault_names_text {source : String} {fault : SourceFault} {position : Nat}
    (refused : compile source = .error fault) (located : fault.position? = some position) :
    ∃ before text after, source.toList = before ++ (text ++ after) ∧
      String.utf8Len before = position ∧ fault.Names text ∧
      ((∃ lexemes, Lexeme.scan source = .ok lexemes ∧
          ∃ placed ∈ lexemes, placed.position = position ∧ placed.lexeme.spelling = text) ∨
        (∃ c, text = [c] ∧ fault = .strayCharacter (String.singleton c) position ∧
          ∀ lexeme ∈ lexical, ¬lexeme <+: c :: after)) ∧
      (fault = .unclosedGroup position → ¬Closes (Text.parentheses after) ∧
        ∀ inner rest, after = inner ++ '(' :: rest → Closes (Text.parentheses rest)) := by
  rcases Expr.stage_of_readingOrder (Expr.readingOrder_of_compile refused) with
    unscanned | ⟨lexemes, scanned, failed⟩
  · obtain ⟨before, c, after, all, whole, takes, stray, rfl⟩ := Lexeme.takes_of_scan_error unscanned
    have here : before.length = position := Option.some.inj located
    subst here
    refine ⟨before, [c], after, whole, Text.utf8Len_of_ascii takes.ascii, .stray c _,
      .inr ⟨c, rfl, rfl, (Lexeme.first?_eq_none_iff _).mp stray⟩, nofun⟩
  · obtain ⟨front, placed, rest, rfl, rfl, names, balanced⟩ :=
      exists_named (Lexeme.solid_of_scan scanned) failed located
    obtain ⟨before, after, whole, stands, behind⟩ := Lexeme.split_of_scan scanned
    refine ⟨before, placed.lexeme.spelling, after, whole, stands, names,
      .inl ⟨_, scanned, placed, by simp, rfl, rfl⟩, fun unclosed => ?_⟩
    have balanced := balanced unclosed
    rw [← behind] at balanced
    refine ⟨balanced.not_closes, ?_⟩
    rintro inner rest' rfl
    have opened : Text.parentheses (inner ++ '(' :: rest') =
        Text.parentheses inner ++ .leftParen :: Text.parentheses rest' := by
      simp [Text.parentheses, Text.parenthesis?]
    rw [opened] at balanced
    exact balanced.closes

/-- The group that is shown is the second one that is open, behind one that is closed. -/
theorem compile_names_last_open :
    compile "((1)*(2" = .error (.unclosedGroup 5) ∧
      (SourceFault.unclosedGroup 5).position? = some 5 ∧
      ∃ before after, "((1)*(2".toList = before ++ '(' :: after ∧ String.utf8Len before = 5 ∧
        ¬Closes (Text.parentheses after) ∧
        ∀ inner rest, after = inner ++ '(' :: rest → Closes (Text.parentheses rest) := by
  have refused : compile "((1)*(2" = .error (.unclosedGroup 5) := by cbv
  obtain ⟨before, text, after, whole, bytes, names, -, last⟩ :=
    compile_fault_names_text refused rfl
  cases names with
  | unclosed => exact ⟨refused, rfl, before, after, whole, bytes, last rfl⟩

end Program
end Reckon
