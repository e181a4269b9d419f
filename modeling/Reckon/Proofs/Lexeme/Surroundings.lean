/- Reckon.Proofs.Lexeme.Surroundings — a text scanned as a part of another

What stands behind a text decides how far its last lexeme goes, unless it opens with a
character that no lexeme goes on with (`Delimits`), such as a parenthesis or a blank; only a run
of blanks goes on with a blank.  Then the text has the lexemes that it has alone (`Takes.before`).
What stands in front of a text only moves its lexemes (`Takes.shift`), so texts between
parentheses are scanned one behind the other (`takes_enclosed`).
-/
import Reckon.Proofs.Lexeme.Placement

namespace Reckon
set_option autoImplicit false

/-- The lexeme with its offset replaced. -/
def Placed.relocate (place : Nat → Nat) (placed : Placed) : Placed :=
  ⟨placed.lexeme, place placed.position⟩

@[simp] theorem Placed.relocate_lexeme (place : Nat → Nat) (placed : Placed) :
    (placed.relocate place).lexeme = placed.lexeme := rfl

/-- The fault with its offset replaced, if it has one. -/
def SourceFault.relocate (place : Nat → Nat) : SourceFault → SourceFault
  | strayCharacter text position => strayCharacter text (place position)
  | unexpectedLexeme found position => unexpectedLexeme found (place position)
  | endOfText => endOfText
  | unclosedGroup position => unclosedGroup (place position)
  | trailingLexeme found position => trailingLexeme found (place position)
  | nestingTooDeep position => nestingTooDeep (place position)
  | unsupported construct position => unsupported construct (place position)
  | literalOutOfRange literal position => literalOutOfRange literal (place position)
  | notDecimal literal position => notDecimal literal (place position)
  | unknownToken word => unknownToken word

namespace Lexeme

open Decimal (isDigit isExponentMark isSign splitFraction)

/-- No lexeme that has begun goes on with the character, unless it is a run of blanks. -/
structure Delimits (c : Char) : Prop where
  word : isWordChar c = false
  point : c ≠ '.'
  sign : isSign c = false
  symbol : ∀ written : Symbol, c ∉ written.chars.tail

/-- Nor does a run of blanks go on with it. -/
structure Separates (c : Char) : Prop extends Delimits c where
  gap : isGap c = false

theorem separates_leftParen : Separates '(' where
  gap := rfl
  word := rfl
  point := by decide
  sign := rfl
  symbol written := by cases written <;> decide

theorem separates_rightParen : Separates ')' where
  gap := rfl
  word := rfl
  point := by decide
  sign := rfl
  symbol written := by cases written <;> decide

theorem delimits_of_isGap {c : Char} (gap : isGap c = true) : Delimits c := by
  simp only [isGap, Bool.or_eq_true, beq_iff_eq] at gap
  rcases gap with (((rfl | rfl) | rfl) | rfl) | rfl <;>
    exact ⟨rfl, by decide, rfl, fun written => by cases written <;> decide⟩

/-! ## One lexeme -/

section Front
variable {c : Char} {source : List Char}

theorem Delimits.digit (delimits : Delimits c) : isDigit c = false :=
  (Bool.or_eq_false_iff.mp delimits.word).1

theorem Delimits.mark (delimits : Delimits c) : isExponentMark c = false := by
  rw [Bool.eq_false_iff]
  intro marks
  have inside := delimits.word
  rcases (by simpa [isExponentMark] using marks : c = 'e' ∨ c = 'E') with rfl | rfl <;> cases inside

theorem takeWhile_append_cons {accepts : Char → Bool} (stops : accepts c = false)
    (source more : List Char) :
    (source ++ c :: more).takeWhile accepts = source.takeWhile accepts := by
  induction source with
  | nil => simp [stops]
  | cons first source ih => simp [List.takeWhile_cons, ih]

theorem dropWhile_append_cons {accepts : Char → Bool} (stops : accepts c = false)
    (source more : List Char) :
    (source ++ c :: more).dropWhile accepts = source.dropWhile accepts ++ c :: more := by
  induction source with
  | nil => simp [stops]
  | cons first source ih =>
    simp only [List.cons_append, List.dropWhile_cons, ih]
    split <;> rfl

theorem splitWord_append_cons (delimits : Delimits c) (source more : List Char) :
    splitWord (source ++ c :: more) = ((splitWord source).1, (splitWord source).2 ++ c :: more) := by
  unfold splitWord
  simp only [List.span_eq_takeWhile_dropWhile, takeWhile_append_cons delimits.word,
    dropWhile_append_cons delimits.word]
  cases source.dropWhile isWordChar with
  | nil => simp [delimits.point]
  | cons first rest =>
    by_cases point : first = '.'
    · subst point
      simp only [List.cons_append, takeWhile_append_cons delimits.word,
        dropWhile_append_cons delimits.word]
    · simp [point]

theorem numberText_append_cons (delimits : Delimits c) (source more : List Char) :
    numberText (source ++ c :: more) = numberText source := by
  unfold numberText
  simp only [splitWord_append_cons delimits]
  cases (splitWord source).2 with
  | nil => simp [delimits.sign]
  | cons first rest => simp only [List.cons_append, takeWhile_append_cons delimits.digit]

theorem exponentText_append_cons (delimits : Delimits c) (source more : List Char) :
    exponentText (source ++ c :: more) = exponentText source := by
  cases source with
  | nil => simp [exponentText, delimits.mark]
  | cons mark rest =>
    unfold exponentText
    cases rest with
    | nil => simp [delimits.sign, delimits.digit]
    | cons first rest =>
      cases signed : isSign first <;>
        simp [signed, List.takeWhile_cons, takeWhile_append_cons delimits.digit]

theorem fractionText?_append_cons (delimits : Delimits c) (source more : List Char) :
    fractionText? (source ++ c :: more) = fractionText? source := by
  have same : splitFraction (source ++ c :: more) =
      ((splitFraction source).1, (splitFraction source).2 ++ c :: more) := by
    cases source with
    | nil => simp [splitFraction, delimits.point]
    | cons first rest =>
      by_cases point : first = '.'
      · subst point
        simp only [List.cons_append, splitFraction, List.span_eq_takeWhile_dropWhile,
          takeWhile_append_cons delimits.digit, dropWhile_append_cons delimits.digit]
      · simp [splitFraction, point]
  unfold fractionText?
  simp only [same, exponentText_append_cons delimits]

/-- A text that reaches past a character has it behind its first one. -/
theorem front_of_front_append {text more : List Char} (absent : c ∉ text.tail) (some : source ≠ [])
    (front : text <+: source ++ c :: more) : text <+: source := by
  by_cases within : text.length ≤ source.length
  · exact List.prefix_of_prefix_length_le front (List.prefix_append _ _) within
  · obtain ⟨first, rest, rfl⟩ := List.exists_cons_of_ne_nil some
    have reaches : (first :: rest) ++ [c] <+: text :=
      List.prefix_of_prefix_length_le ⟨more, by simp⟩ front (by simp at within ⊢; omega)
    obtain ⟨others, rfl⟩ := reaches
    exact absurd (by simp) absent

theorem longest?_append_cons (delimits : Delimits c) (some : source ≠ []) (more : List Char) :
    Symbol.longest? (source ++ c :: more) = Symbol.longest? source := by
  unfold Symbol.longest?
  refine congrArg (Symbol.all.find? ·) (funext fun symbol => ?_)
  rw [Bool.eq_iff_iff, List.isPrefixOf_iff_prefix, List.isPrefixOf_iff_prefix]
  exact ⟨front_of_front_append (delimits.symbol symbol) some,
    fun front => front.trans (List.prefix_append _ _)⟩

/-- A lexeme is read as if the text ended where a character follows that no lexeme goes on
with. -/
theorem first?_cons_append_cons (delimits : Delimits c) {first : Char}
    (ends : isGap first = false ∨ isGap c = false) (rest more : List Char) :
    first? (first :: rest ++ c :: more) = first? (first :: rest) := by
  have number := numberText_append_cons delimits (first :: rest) more
  have fraction := fractionText?_append_cons delimits (first :: rest) more
  have symbol := longest?_append_cons delimits (List.cons_ne_nil first rest) more
  have name := takeWhile_append_cons delimits.word (first :: rest) more
  rw [List.cons_append] at number fraction symbol name ⊢
  unfold first?
  rcases ends with solid | gap
  · simp only [number, fraction, symbol, name, solid, Bool.false_eq_true, if_false]
  · have blanks := takeWhile_append_cons gap (first :: rest) more
    rw [List.cons_append] at blanks
    simp only [number, fraction, symbol, name, blanks]

theorem first?_append_cons (separates : Separates c) (some : source ≠ []) (more : List Char) :
    first? (source ++ c :: more) = first? source := by
  obtain ⟨first, rest, rfl⟩ := List.exists_cons_of_ne_nil some
  exact first?_cons_append_cons separates.toDelimits (.inr separates.gap) rest more

end Front

theorem first?_leftParen (rest : List Char) :
    first? ('(' :: rest) = some (.symbol .leftParen, ['(']) := rfl

theorem first?_rightParen (rest : List Char) :
    first? (')' :: rest) = some (.symbol .rightParen, [')']) := rfl

/-- A symbol is read as itself where no lexeme goes on with what follows. -/
theorem first?_chars {c : Char} (separates : Separates c) (symbol : Symbol) (rest : List Char) :
    first? (symbol.chars ++ c :: rest) = some (.symbol symbol, symbol.chars) := by
  rw [first?_append_cons separates (chars_ne_nil symbol)]
  cases symbol <;> rfl

/-! ## All lexemes -/

namespace Takes
variable {behind source : List Char} {position : Nat} {lexemes : List Placed}

/-- A text that is one lexeme. -/
theorem single {lexeme : Lexeme} {text : List Char} (position : Nat)
    (first : first? (text ++ behind) = some (lexeme, text)) :
    Takes behind position text [⟨lexeme, position⟩] := by
  have taken : Takes behind position (text ++ []) [⟨lexeme, position⟩] :=
    .next position first (.done _)
  rwa [List.append_nil] at taken

/-- A text has the same lexemes further on. -/
theorem shift (takes : Takes behind position source lexemes) (offset : Nat) :
    Takes behind (position + offset) source (lexemes.map (Placed.relocate (· + offset))) := by
  induction takes with
  | done position => exact .done _
  | @next lexeme text rest lexemes position first others ih =>
    refine .next (position + offset) first ?_
    rwa [Nat.add_right_comm]

/-- A text that ends before a character that no lexeme goes on with has the lexemes that it has
alone. -/
theorem before {c : Char} (takes : Takes [] position source lexemes) (separates : Separates c)
    (more : List Char) : Takes (c :: more) position source lexemes := by
  induction takes with
  | done position => exact .done position
  | @next lexeme text rest lexemes position first others ih =>
    obtain ⟨some, -, -⟩ := first?_eq_some first
    rw [List.append_nil] at first
    refine .next position ?_ ih
    rw [← List.append_assoc, first?_append_cons separates (by simp [some]), first]

/-- Texts that stand one behind the other have the lexemes of both. -/
theorem append {second : List Char} {others : List Placed}
    (takes : Takes (second ++ behind) position source lexemes)
    (takes' : Takes behind (position + source.length) second others) :
    Takes behind position (source ++ second) (lexemes ++ others) := by
  induction takes with
  | done position => exact takes'
  | @next lexeme text rest lexemes position first _ ih =>
    rw [List.append_assoc, List.cons_append]
    rw [List.length_append, ← Nat.add_assoc] at takes'
    exact .next position (by rwa [List.append_assoc]) (ih takes')

end Takes

/-! ## Texts between parentheses -/

/-- The lexemes of a text of this length, between parentheses that open at an offset. -/
def enclosed (position length : Nat) (lexemes : List Placed) : List Placed :=
  ⟨.symbol .leftParen, position⟩ :: (lexemes.map (Placed.relocate (· + (position + 1))) ++
    [⟨.symbol .rightParen, position + 1 + length⟩])

theorem filter_enclosed (position length : Nat) (lexemes : List Placed) :
    (enclosed position length lexemes).filter (fun placed => !placed.lexeme.isBlank) =
      enclosed position length (lexemes.filter fun placed => !placed.lexeme.isBlank) := by
  simp [enclosed, isBlank, List.filter_map, Function.comp_def]

/-- A text between parentheses has its own lexemes between theirs. -/
theorem takes_enclosed {source : List Char} {lexemes : List Placed}
    (takes : Takes [] 0 source lexemes) (position : Nat) (behind : List Char) :
    Takes behind position ('(' :: (source ++ [')'])) (enclosed position source.length lexemes) := by
  have inside : Takes (')' :: behind) (position + 1) source
      (lexemes.map (Placed.relocate (· + (position + 1)))) := by
    have moved := (takes.before separates_rightParen behind).shift (position + 1)
    rwa [Nat.zero_add] at moved
  have closing : Takes behind (position + 1 + source.length) [')']
      [⟨.symbol .rightParen, position + 1 + source.length⟩] :=
    .single _ (first?_rightParen behind)
  have contents : Takes behind (position + 1) (source ++ [')']) _ := inside.append closing
  show Takes behind position (['('] ++ (source ++ [')'])) _
  exact .next position (first?_leftParen _) contents

theorem scan_enclosed {source : String} {lexemes : List Placed}
    (scanned : scan source = .ok lexemes) :
    scan ("(" ++ source ++ ")") = .ok (enclosed 0 source.toList.length lexemes) := by
  obtain ⟨all, takes, rfl⟩ := takes_of_scan scanned
  have whole : ("(" ++ source ++ ")").toList = '(' :: (source.toList ++ [')']) := by simp
  have taken := takes_enclosed takes 0 []
  rw [← whole] at taken
  rw [scan_of_takes taken, filter_enclosed]

/-- Two texts between parentheses and a symbol between them. -/
theorem scan_joined {before after : String} {first second : List Placed}
    (scanned : scan before = .ok first) (scanned' : scan after = .ok second) (symbol : Symbol) :
    ∃ between behind,
      scan ("(" ++ before ++ ")" ++ String.ofList symbol.chars ++ "(" ++ after ++ ")") =
        .ok (enclosed 0 before.toList.length first ++ ⟨.symbol symbol, between⟩ ::
          enclosed behind after.toList.length second) := by
  obtain ⟨all, takes, rfl⟩ := takes_of_scan scanned
  obtain ⟨all', takes', rfl⟩ := takes_of_scan scanned'
  let left := '(' :: (before.toList ++ [')'])
  let right := '(' :: (after.toList ++ [')'])
  have whole : ("(" ++ before ++ ")" ++ String.ofList symbol.chars ++ "(" ++ after ++ ")").toList =
      left ++ (symbol.chars ++ right) := by simp [left, right]
  have first : Takes (symbol.chars ++ right ++ []) 0 left _ := takes_enclosed takes 0 _
  have middle : Takes (right ++ []) (0 + left.length) symbol.chars [⟨.symbol symbol, _⟩] :=
    .single _ (first?_chars separates_leftParen symbol _)
  have last : Takes [] (0 + left.length + symbol.chars.length) right _ := takes_enclosed takes' _ _
  have taken := first.append (middle.append last)
  rw [← whole] at taken
  refine ⟨0 + left.length, 0 + left.length + symbol.chars.length, ?_⟩
  rw [scan_of_takes taken, List.filter_append, filter_enclosed, List.singleton_append,
    List.filter_cons_of_pos rfl, filter_enclosed]

end Lexeme
end Reckon
