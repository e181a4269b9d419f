/- Reckon.Proofs.Lexeme.Parentheses — the parentheses of a text

A parenthesis is always a lexeme of its own: no number, no name and no other symbol has one
in it.  So a text has its parentheses in the order in which its lexemes are parentheses
(`parentheses_of_scan`), and which of them belong together and how deep they are nested can
be said of the text.
-/
import Reckon.Proofs.Lexeme.Cuts
import Reckon.Proofs.Postfix.Parentheses

namespace Reckon
set_option autoImplicit false

open Decimal (isDigit isSign)
open Lexeme Lexeme.Pattern
open scoped Computability

/-- The token of a character that is a parenthesis. -/
def Text.parenthesis? : Char → Option Token
  | '(' => some .leftParen
  | ')' => some .rightParen
  | _ => none

/-- The parentheses of a text. -/
def Text.parentheses (source : List Char) : List Token := source.filterMap Text.parenthesis?

namespace Lexeme

/-- The token of a lexeme that is a parenthesis. -/
def parenthesis? : Lexeme → Option Token
  | symbol .leftParen => some .leftParen
  | symbol .rightParen => some .rightParen
  | _ => none

/-- The parentheses of a lexeme list. -/
def parentheses (lexemes : List Placed) : List Token :=
  lexemes.filterMap fun placed => placed.lexeme.parenthesis?

@[simp] theorem parentheses_append (before after : List Placed) :
    parentheses (before ++ after) = parentheses before ++ parentheses after :=
  List.filterMap_append

@[simp] theorem parentheses_cons (placed : Placed) (rest : List Placed) :
    parentheses (placed :: rest) = placed.lexeme.parenthesis?.toList ++ parentheses rest := by
  rw [parentheses, List.filterMap_cons]
  cases placed.lexeme.parenthesis? <;> rfl

theorem parenthesis?_symbol {symbol : Symbol} (left : symbol ≠ .leftParen)
    (right : symbol ≠ .rightParen) : (Lexeme.symbol symbol).parenthesis? = none := by
  cases symbol <;> first | rfl | contradiction

/-! ## Characters without parentheses -/

/-- The character is no parenthesis. -/
def isPlain (c : Char) : Bool := (Text.parenthesis? c).isNone

theorem isPlain_of {accepts : Char → Bool} (left : accepts '(' = false)
    (right : accepts ')' = false) (c : Char) (accepted : accepts c = true) :
    isPlain c = true := by
  unfold isPlain Text.parenthesis?
  split
  · rw [left] at accepted
    cases accepted
  · rw [right] at accepted
    cases accepted
  · rfl

theorem parentheses_of_plain {text : List Char} (plain : text ∈ (one isPlain)∗) :
    Text.parentheses text = [] :=
  List.filterMap_eq_nil_iff.mpr fun c member =>
    Option.isNone_iff_eq_none.mp (mem_any.mp plain c member)

/-! ## Scanning -/

/-- The text of a lexeme has a parenthesis in it only if it is one. -/
theorem parentheses_of_first? {source text : List Char} {lexeme : Lexeme}
    (found : first? source = some (lexeme, text)) :
    Text.parentheses text = lexeme.parenthesis?.toList := by
  have kind := (longest_of_first? found).2
  have wordChars : ∀ c, isWordChar c = true → isPlain c = true := isPlain_of rfl rfl
  cases lexeme with
  | number form written =>
    exact parentheses_of_plain (number_le_any wordChars rfl (isPlain_of rfl rfl) kind)
  | name written => exact parentheses_of_plain (name_le_any wordChars kind)
  | symbol written =>
    obtain rfl : text = written.chars := kind
    cases written <;> rfl
  | blank => exact parentheses_of_plain (run_le_any (isPlain_of rfl rfl) kind)

theorem Takes.parentheses {behind source : List Char} {position : Nat} {lexemes : List Placed}
    (takes : Takes behind position source lexemes) :
    Text.parentheses source = Lexeme.parentheses lexemes := by
  induction takes with
  | done => rfl
  | next position first others ih =>
    rw [parentheses_cons, ← parentheses_of_first? first, ← ih]
    exact List.filterMap_append

theorem parentheses_filter (lexemes : List Placed) :
    parentheses (lexemes.filter fun placed => !placed.lexeme.isBlank) = parentheses lexemes := by
  rw [parentheses, parentheses, List.filterMap_filter]
  refine List.filterMap_congr fun placed _ => ?_
  cases placed.lexeme <;> rfl

/-- A text has the parentheses of its lexemes. -/
theorem parentheses_of_scan {source : String} {lexemes : List Placed}
    (scanned : scan source = .ok lexemes) :
    Text.parentheses source.toList = Lexeme.parentheses lexemes := by
  obtain ⟨all, takes, rfl⟩ := takes_of_scan scanned
  rw [takes.parentheses, parentheses_filter]

/-- A lexeme of a text stands at its offset in bytes, and what follows it has the parentheses of
the lexemes that follow. -/
theorem split_of_scan {source : String} {front rest : List Placed} {placed : Placed}
    (scanned : scan source = .ok (front ++ placed :: rest)) :
    ∃ before after, source.toList = before ++ (placed.lexeme.spelling ++ after) ∧
      String.utf8Len before = placed.position ∧
      Text.parentheses after = Lexeme.parentheses rest := by
  obtain ⟨all, takes, same⟩ := takes_of_scan scanned
  obtain ⟨front', rest', rfl, -, here⟩ := List.filter_eq_append_iff.mp same.symm
  obtain ⟨blanks, behind, rfl, -, solid, rfl⟩ := List.filter_eq_cons_iff.mp here
  rw [← List.append_assoc] at takes
  obtain ⟨before, text, after, whole, stands, first, others⟩ := takes.split
  obtain ⟨-, -, spelled⟩ := first?_eq_some first
  refine ⟨before, after, ?_, ?_, ?_⟩
  · rw [spelling_eq spelled (by simpa using solid), whole]
  · have ascii := takes.ascii
    rw [whole] at ascii
    rw [Text.utf8Len_of_ascii fun c inside => ascii c (List.mem_append_left _ inside), stands,
      Nat.zero_add]
  · rw [others.parentheses, parentheses_filter]

/-- No blank is a lexeme of a text. -/
theorem solid_of_scan {source : String} {lexemes : List Placed}
    (scanned : scan source = .ok lexemes) :
    ∀ placed ∈ lexemes, placed.lexeme.isBlank = false := by
  obtain ⟨all, -, rfl⟩ := takes_of_scan scanned
  intro placed member
  simpa using (List.mem_filter.mp member).2

end Lexeme
end Reckon
