/- Reckon.Proofs.Lexeme.Pattern — the patterns that lexemes are cut out by

Each kind of lexeme has a pattern, a language of texts; a text in none of them is
no lexeme.  The patterns overlap: whatever is written like an integer is written
like a number-like word too, and so are most reals.  Which characters a text of
a pattern may open with is told apart (`opens`), and no two kinds of lexeme
share one of them but numbers among themselves.

A decimal is a mantissa and, maybe, an exponent.  `mantissa` finds the first part
of any text that opens with a digit (`mantissa_eq`, `mantissa_append`), so what
is left behind it tells which of the number patterns the text has
(`mem_integer_iff`, `mem_real_iff`).
-/
import Mathlib
import Reckon.Proofs.Decimal.RoundTrip
import Reckon.Proofs.Lexeme.Placement

namespace Reckon.Lexeme
set_option autoImplicit false

open Decimal (isDigit isExponentMark isSign)
open scoped Computability

namespace Pattern

/-! ## Patterns -/

/-- One character of a class. -/
def one (accepts : Char → Bool) : Language Char := {text | ∃ c, accepts c = true ∧ text = [c]}

/-- One or more characters of a class. -/
def run (accepts : Char → Bool) : Language Char := one accepts * (one accepts)∗

/-- A text of the language or nothing. -/
def maybe (language : Language Char) : Language Char := 1 + language

/-- The decimal point. -/
def point : Language Char := one (· == '.')

/-- The exponent of a decimal. -/
def exponent : Language Char := one isExponentMark * maybe (one isSign) * run isDigit

/-- Digits only. -/
def integer : Language Char := run isDigit

/-- A decimal that opens with the point. -/
def fraction : Language Char := point * run isDigit * maybe exponent

/-- Digits with a point behind or among them, a point before them, or digits and an exponent. -/
def real : Language Char :=
  run isDigit * point * (one isDigit)∗ * maybe exponent + fraction + run isDigit * exponent

/-- A number-like word. -/
def word : Language Char :=
  one isDigit * (one isWordChar)∗ * maybe (point * (one isWordChar)∗)

/-- A name. -/
def name : Language Char := one isNameStart * (one isWordChar)∗

/-- A symbol. -/
def symbol : Language Char := {text | ∃ written : Symbol, text = written.chars}

/-- A run of blanks. -/
def blank : Language Char := run isGap

/-- What any lexeme is written like. -/
def lexical : Language Char := real + integer + word + name + symbol + blank

/-! ## Texts of a pattern -/

theorem mem_one {accepts : Char → Bool} {text : List Char} :
    text ∈ one accepts ↔ ∃ c, accepts c = true ∧ text = [c] := Iff.rfl

theorem mem_any {accepts : Char → Bool} {text : List Char} :
    text ∈ (one accepts)∗ ↔ ∀ c ∈ text, accepts c = true := by
  rw [Language.mem_kstar]
  constructor
  · rintro ⟨parts, rfl, each⟩ c member
    obtain ⟨part, among, inside⟩ := List.mem_flatten.mp member
    obtain ⟨c', accepted, rfl⟩ := each part among
    obtain rfl := List.mem_singleton.mp inside
    exact accepted
  · intro each
    refine ⟨text.map fun c => [c], (List.flatMap_singleton' text).symm, fun part among => ?_⟩
    obtain ⟨c, member, rfl⟩ := List.mem_map.mp among
    exact ⟨c, each c member, rfl⟩

theorem mem_one_mul {accepts : Char → Bool} {language : Language Char} {text : List Char} :
    text ∈ one accepts * language ↔ ∃ c rest, accepts c = true ∧ rest ∈ language ∧
      text = c :: rest := by
  rw [Language.mem_mul]
  constructor
  · rintro ⟨_, ⟨c, accepted, rfl⟩, rest, within, rfl⟩
    exact ⟨c, rest, accepted, within, rfl⟩
  · rintro ⟨c, rest, accepted, within, rfl⟩
    exact ⟨[c], ⟨c, accepted, rfl⟩, rest, within, rfl⟩

theorem mem_run {accepts : Char → Bool} {text : List Char} :
    text ∈ run accepts ↔ text ≠ [] ∧ ∀ c ∈ text, accepts c = true := by
  rw [run, mem_one_mul]
  constructor
  · rintro ⟨c, rest, accepted, others, rfl⟩
    exact ⟨nofun, List.forall_mem_cons.mpr ⟨accepted, mem_any.mp others⟩⟩
  · rintro ⟨written, each⟩
    obtain ⟨c, rest, rfl⟩ := List.exists_cons_of_ne_nil written
    obtain ⟨accepted, others⟩ := List.forall_mem_cons.mp each
    exact ⟨c, rest, accepted, mem_any.mpr others, rfl⟩

theorem mem_maybe {language : Language Char} {text : List Char} :
    text ∈ maybe language ↔ text = [] ∨ text ∈ language := Iff.rfl

theorem mem_point {text : List Char} : text ∈ point ↔ text = ['.'] := by
  simp [point, mem_one]

theorem mem_exponent {text : List Char} :
    text ∈ exponent ↔ ∃ mark sign digits, isExponentMark mark = true ∧
      (sign = [] ∨ ∃ c, isSign c = true ∧ sign = [c]) ∧ digits ∈ run isDigit ∧
      text = mark :: (sign ++ digits) := by
  rw [exponent, mul_assoc, mem_one_mul]
  simp only [Language.mem_mul, mem_maybe, mem_one]
  constructor
  · rintro ⟨mark, _, marks, ⟨sign, signed, digits, written, rfl⟩, rfl⟩
    exact ⟨mark, sign, digits, marks, signed, written, rfl⟩
  · rintro ⟨mark, sign, digits, marks, signed, written, rfl⟩
    exact ⟨mark, _, marks, ⟨sign, signed, digits, written, rfl⟩, rfl⟩

theorem mem_fraction {text : List Char} :
    text ∈ fraction ↔ ∃ digits tail, digits ∈ run isDigit ∧ tail ∈ maybe exponent ∧
      text = '.' :: (digits ++ tail) := by
  rw [fraction, mul_assoc, point, mem_one_mul]
  simp only [Language.mem_mul]
  constructor
  · rintro ⟨c, _, point, ⟨digits, written, tail, spelled, rfl⟩, rfl⟩
    obtain rfl : c = '.' := by simpa using point
    exact ⟨digits, tail, written, spelled, rfl⟩
  · rintro ⟨digits, tail, written, spelled, rfl⟩
    exact ⟨'.', _, rfl, ⟨digits, written, tail, spelled, rfl⟩, rfl⟩

/-! ## Mantissas -/

/-- The digits, with or without a point, that a decimal of this form opens with. -/
inductive Mantissa : NumberForm → List Char → Prop where
  | integer {digits : List Char} (written : digits ∈ run isDigit) : Mantissa .integer digits
  | real {digits places : List Char} (written : digits ∈ run isDigit)
      (each : ∀ c ∈ places, isDigit c = true) : Mantissa .real (digits ++ '.' :: places)

/-- A mantissa of this form does not go on here. -/
def Ends (form : NumberForm) (tail : List Char) : Prop :=
  ∀ c ∈ tail.head?, isDigit c = false ∧ (form = .integer → c ≠ '.')

theorem ends_nil (form : NumberForm) : Ends form [] := fun _ here => nomatch here

theorem ends_mark (form : NumberForm) {mark : Char} (marks : isExponentMark mark = true)
    (rest : List Char) : Ends form (mark :: rest) := by
  rintro _ ⟨⟩
  rcases (by simpa [isExponentMark] using marks : mark = 'e' ∨ mark = 'E') with rfl | rfl
  · exact ⟨rfl, nofun⟩
  · exact ⟨rfl, nofun⟩

theorem ends_exponent (form : NumberForm) {tail : List Char} (spelled : tail ∈ exponent) :
    Ends form tail := by
  obtain ⟨mark, sign, digits, marks, -, -, rfl⟩ := mem_exponent.mp spelled
  exact ends_mark form marks _

theorem exponent_ne_nil {tail : List Char} (spelled : tail ∈ exponent) : tail ≠ [] := by
  obtain ⟨mark, sign, digits, -, -, -, rfl⟩ := mem_exponent.mp spelled
  nofun

theorem head?_dropWhile (accepts : Char → Bool) (source : List Char) :
    ∀ c ∈ (source.dropWhile accepts).head?, accepts c = false := by
  intro c here
  have stays := List.head?_dropWhile_not accepts source
  rw [Option.mem_def.mp here] at stays
  exact stays

/-- What is found in front of a mantissa's end is the mantissa. -/
theorem mantissa_append {form : NumberForm} {front tail : List Char} (found : Mantissa form front)
    (ends : Ends form tail) : mantissa (front ++ tail) = (form, tail) := by
  unfold mantissa
  cases found with
  | integer written =>
    rw [(span_run (mem_run.mp written).2 fun c here => (ends c here).1).2]
    split
    · exact absurd rfl ((ends '.' rfl).2 rfl)
    · rfl
  | @real digits places written each =>
    have point : ∀ c ∈ ('.' :: places ++ tail).head?, isDigit c = false := by
      rintro _ ⟨⟩
      rfl
    rw [List.append_assoc, (span_run (mem_run.mp written).2 point).2]
    show (NumberForm.real, (places ++ tail).dropWhile isDigit) = (.real, tail)
    rw [(span_run each fun c here => (ends c here).1).2]

/-- A text that opens with a digit opens with a mantissa. -/
theorem mantissa_eq {c : Char} (digit : isDigit c = true) (rest : List Char) :
    ∃ front, Mantissa (mantissa (c :: rest)).1 front ∧
      Ends (mantissa (c :: rest)).1 (mantissa (c :: rest)).2 ∧
      c :: rest = front ++ (mantissa (c :: rest)).2 := by
  have written : (c :: rest).takeWhile isDigit ∈ run isDigit :=
    mem_run.mpr ⟨by simp [digit], fun _ member => List.mem_takeWhile_imp member⟩
  have whole := List.takeWhile_append_dropWhile (p := isDigit) (l := c :: rest)
  have stops := head?_dropWhile isDigit (c :: rest)
  unfold mantissa
  split
  · rename_i behind point
    have places : ∀ c ∈ behind.takeWhile isDigit, isDigit c = true :=
      fun _ member => List.mem_takeWhile_imp member
    refine ⟨_, .real written places, fun c here => ⟨head?_dropWhile _ _ c here, nofun⟩, ?_⟩
    rw [List.append_assoc, List.cons_append, List.takeWhile_append_dropWhile, ← point, whole]
  · rename_i notPoint
    refine ⟨_, .integer written, fun c here => ⟨stops c here, ?_⟩, whole.symm⟩
    rintro - rfl
    cases tail : (c :: rest).dropWhile isDigit with
    | nil => rw [tail] at here; cases here
    | cons first behind =>
      rw [tail] at here
      cases here
      exact notPoint behind tail

theorem mem_real {text : List Char} :
    text ∈ real ↔ Mantissa .real text ∨
      (∃ form front tail, Mantissa form front ∧ tail ∈ exponent ∧ text = front ++ tail) ∨
      text ∈ fraction := by
  have pointed (front : List Char) :
      front ∈ run isDigit * point * (one isDigit)∗ ↔ Mantissa .real front := by
    simp only [Language.mem_mul, mem_point, mem_any]
    constructor
    · rintro ⟨_, ⟨digits, written, _, rfl, rfl⟩, places, each, rfl⟩
      rw [List.append_assoc]
      exact .real written each
    · intro found
      cases found with
      | @real digits places written each =>
        exact ⟨_, ⟨digits, written, _, rfl, rfl⟩, places, each, by simp⟩
  rw [real, Language.mem_add, Language.mem_add]
  simp only [Language.mem_mul (l := run isDigit * point * (one isDigit)∗), pointed, mem_maybe]
  constructor
  · rintro ((⟨front, found, tail, ⟨rfl⟩ | spelled, rfl⟩ | fraction) | whole)
    · rw [List.append_nil]
      exact .inl found
    · exact .inr (.inl ⟨_, front, tail, found, spelled, rfl⟩)
    · exact .inr (.inr fraction)
    · obtain ⟨front, written, tail, spelled, rfl⟩ := Language.mem_mul.mp whole
      exact .inr (.inl ⟨_, front, tail, .integer written, spelled, rfl⟩)
  · rintro (found | ⟨form, front, tail, found, spelled, rfl⟩ | fraction)
    · exact .inl (.inl ⟨text, found, [], .inl rfl, List.append_nil _⟩)
    · cases found with
      | integer written => exact .inr (Language.mem_mul.mpr ⟨_, written, tail, spelled, rfl⟩)
      | real written each =>
        exact .inl (.inl ⟨_, .real written each, tail, .inr spelled, rfl⟩)
    · exact .inl (.inr fraction)

/-- A mantissa opens with a digit. -/
theorem Mantissa.opens {form : NumberForm} {front : List Char} (found : Mantissa form front) :
    ∃ c rest, isDigit c = true ∧ front = c :: rest := by
  cases found with
  | integer written =>
    obtain ⟨c, rest, digit, -, same⟩ := mem_one_mul.mp written
    exact ⟨c, rest, digit, same⟩
  | real written each =>
    obtain ⟨c, rest, digit, -, rfl⟩ := mem_one_mul.mp written
    exact ⟨c, _, digit, rfl⟩

theorem fraction_opens {text : List Char} (spelled : text ∈ fraction) :
    ∃ rest, text = '.' :: rest := by
  obtain ⟨digits, tail, -, -, rfl⟩ := mem_fraction.mp spelled
  exact ⟨_, rfl⟩

section Number
variable {c : Char} {rest : List Char}

/-- A text is an integer if all of it is the mantissa of one. -/
theorem mem_integer_iff (digit : isDigit c = true) :
    c :: rest ∈ integer ↔ mantissa (c :: rest) = (.integer, []) := by
  constructor
  · intro written
    have found := mantissa_append (.integer written) (ends_nil _)
    rwa [List.append_nil] at found
  · intro whole
    obtain ⟨front, found, -, same⟩ := mantissa_eq digit rest
    rw [whole, List.append_nil] at same
    rw [whole, ← same] at found
    cases found with
    | integer written => exact written

/-- A text that opens with a digit is a real if its mantissa is all of it and has a point, or an
exponent is what follows. -/
theorem mem_real_iff (digit : isDigit c = true) :
    c :: rest ∈ real ↔
      mantissa (c :: rest) = (.real, []) ∨ (mantissa (c :: rest)).2 ∈ exponent := by
  rw [mem_real]
  constructor
  · rintro (whole | ⟨form, front, tail, found, spelled, same⟩ | point)
    · have found := mantissa_append whole (ends_nil _)
      rw [List.append_nil] at found
      exact .inl found
    · rw [same, mantissa_append found (ends_exponent form spelled)]
      exact .inr spelled
    · obtain ⟨_, same⟩ := fraction_opens point
      cases same
      cases digit
  · obtain ⟨front, found, -, same⟩ := mantissa_eq digit rest
    rintro (whole | spelled)
    · rw [whole, List.append_nil] at same
      rw [whole, ← same] at found
      exact .inl found
    · exact .inr (.inl ⟨_, front, _, found, spelled, same⟩)

end Number

theorem mem_word {text : List Char} :
    text ∈ word ↔ ∃ c whole, isDigit c = true ∧ (∀ c ∈ whole, isWordChar c = true) ∧
      (text = c :: whole ∨ ∃ places, (∀ c ∈ places, isWordChar c = true) ∧
        text = c :: (whole ++ '.' :: places)) := by
  rw [word, mul_assoc, mem_one_mul]
  simp only [Language.mem_mul, mem_any, mem_maybe, mem_point]
  constructor
  · rintro ⟨c, _, digit, ⟨whole, each, tail, rfl | ⟨_, rfl, places, each', rfl⟩, rfl⟩, rfl⟩
    · exact ⟨c, whole, digit, each, .inl (by rw [List.append_nil])⟩
    · exact ⟨c, whole, digit, each, .inr ⟨places, each', rfl⟩⟩
  · rintro ⟨c, whole, digit, each, rfl | ⟨places, each', rfl⟩⟩
    · exact ⟨c, whole, digit, ⟨whole, each, [], .inl rfl, List.append_nil _⟩, rfl⟩
    · exact ⟨c, _, digit, ⟨whole, each, _, .inr ⟨_, rfl, places, each', rfl⟩, rfl⟩, rfl⟩

theorem isWordChar_of_isDigit {c : Char} (digit : isDigit c = true) : isWordChar c = true := by
  rw [isWordChar, digit, Bool.true_or]

/-- Letters, digits and low lines may follow a mantissa in a number-like word. -/
theorem Mantissa.append_mem_word {form : NumberForm} {front tail : List Char}
    (found : Mantissa form front) (each : ∀ c ∈ tail, isWordChar c = true) :
    front ++ tail ∈ word := by
  cases found with
  | integer written =>
    obtain ⟨c, digits, digit, others, rfl⟩ := mem_one_mul.mp written
    refine mem_word.mpr ⟨c, digits ++ tail, digit, ?_, .inl rfl⟩
    exact List.forall_mem_append.mpr
      ⟨fun c member => isWordChar_of_isDigit (mem_any.mp others c member), each⟩
  | @real _ places written each' =>
    obtain ⟨c, digits, digit, others, rfl⟩ := mem_one_mul.mp written
    refine mem_word.mpr ⟨c, digits, digit,
      fun c member => isWordChar_of_isDigit (mem_any.mp others c member),
      .inr ⟨places ++ tail, ?_, by simp⟩⟩
    exact List.forall_mem_append.mpr
      ⟨fun c member => isWordChar_of_isDigit (each' c member), each⟩

/-- An integer is a number-like word. -/
theorem mem_word_of_mem_integer {text : List Char} (written : text ∈ integer) : text ∈ word := by
  have whole : text ++ [] ∈ word := (Mantissa.integer written).append_mem_word nofun
  rwa [List.append_nil] at whole

/-- A number opens with a digit or is a fraction. -/
theorem number_opens {text : List Char} (within : text ∈ word + real) :
    ∃ c rest, text = c :: rest ∧ (isDigit c = true ∨ c = '.' ∧ text ∈ fraction) := by
  rcases within with word | real
  · obtain ⟨c, whole, digit, -, rfl | ⟨places, -, rfl⟩⟩ := mem_word.mp word
    · exact ⟨c, _, rfl, .inl digit⟩
    · exact ⟨c, _, rfl, .inl digit⟩
  · rcases mem_real.mp real with found | ⟨form, front, tail, found, -, rfl⟩ | point
    · obtain ⟨c, rest, digit, rfl⟩ := found.opens
      exact ⟨c, rest, rfl, .inl digit⟩
    · obtain ⟨c, rest, digit, rfl⟩ := found.opens
      exact ⟨c, rest ++ tail, rfl, .inl digit⟩
    · obtain ⟨rest, rfl⟩ := fraction_opens point
      exact ⟨'.', rest, rfl, .inr ⟨rfl, point⟩⟩

/-! ## First characters -/

/-- What the first character of a lexeme says of its kind. -/
inductive Opening where
  | gap | digit | point | letter | mark
  deriving DecidableEq

/-- How a lexeme with this first character opens. -/
def opening (c : Char) : Opening :=
  if isGap c then .gap
  else if isDigit c then .digit
  else if c == '.' then .point
  else if isNameStart c then .letter
  else .mark

/-- What a lexeme that opens so is written like. -/
def Opening.language : Opening → Language Char
  | gap => blank
  | digit => word + real
  | point => fraction
  | letter => name
  | mark => symbol

/-- No blank is a digit, a letter or a point. -/
theorem isGap_eq_false {c : Char} (solid : '.' ≤ c) : isGap c = false := by
  rw [Bool.eq_false_iff]
  intro gap
  simp only [isGap, Bool.or_eq_true, beq_iff_eq] at gap
  rcases gap with (((rfl | rfl) | rfl) | rfl) | rfl <;> exact absurd solid (by decide)

theorem opening_of_isGap {c : Char} (gap : isGap c = true) : opening c = .gap := by
  rw [opening, gap]
  rfl

theorem opening_of_isDigit {c : Char} (digit : isDigit c = true) : opening c = .digit := by
  have range : '0' ≤ c ∧ c ≤ '9' := by simpa [isDigit] using digit
  rw [opening, isGap_eq_false (Char.le_trans (by decide) range.1), digit]
  rfl

theorem opening_of_isNameStart {c : Char} (letter : isNameStart c = true) :
    opening c = .letter := by
  have above : 'A' ≤ c := by
    simp only [isNameStart, Bool.or_eq_true, Bool.and_eq_true, decide_eq_true_eq, beq_iff_eq]
      at letter
    rcases letter with (⟨small, -⟩ | ⟨capital, -⟩) | rfl
    · exact Char.le_trans (by decide) small
    · exact capital
    · decide
  have noDigit : isDigit c = false := by
    rw [Bool.eq_false_iff]
    intro digit
    have range : '0' ≤ c ∧ c ≤ '9' := by simpa [isDigit] using digit
    exact absurd (Char.le_trans above range.2) (by decide)
  have noPoint : (c == '.') = false := by
    rw [beq_eq_false_iff_ne]
    rintro rfl
    exact absurd above (by decide)
  rw [opening, isGap_eq_false (Char.le_trans (by decide) above), noDigit, noPoint, letter]
  rfl

theorem opening_of_chars {written : Symbol} {c : Char} {rest : List Char}
    (same : written.chars = c :: rest) : opening c = .mark := by
  cases written <;> cases same <;> decide

theorem Opening.mem_lexical {kind : Opening} {text : List Char}
    (within : text ∈ kind.language) : text ∈ lexical := by
  have of_real (real : text ∈ real) : text ∈ lexical :=
    .inl (.inl (.inl (.inl (.inl real))))
  cases kind with
  | gap => exact .inr within
  | digit => exact within.elim (fun word => .inl (.inl (.inl (.inr word)))) of_real
  | point => exact of_real (mem_real.mpr (.inr (.inr within)))
  | letter => exact .inl (.inl (.inr within))
  | mark => exact .inl (.inr within)

/-- Whatever a lexeme is written like is written like a lexeme of the kind that its first
character tells. -/
theorem opens_of_mem_lexical {text : List Char} (within : text ∈ lexical) :
    ∃ c rest, text = c :: rest ∧ text ∈ (opening c).language := by
  have number (within : text ∈ word + real) :
      ∃ c rest, text = c :: rest ∧ text ∈ (opening c).language := by
    obtain ⟨c, rest, rfl, digit | ⟨rfl, point⟩⟩ := number_opens within
    · exact ⟨c, rest, rfl, by rw [opening_of_isDigit digit]; exact within⟩
    · exact ⟨'.', rest, rfl, point⟩
  rcases within with ((((real | integer) | word) | name) | symbol) | blank
  · exact number (.inr real)
  · exact number (.inl (mem_word_of_mem_integer integer))
  · exact number (.inl word)
  · obtain ⟨c, rest, letter, -, rfl⟩ := mem_one_mul.mp name
    exact ⟨c, rest, rfl, by rw [opening_of_isNameStart letter]; exact name⟩
  · obtain ⟨written, rfl⟩ := symbol
    obtain ⟨c, rest, same⟩ := List.exists_cons_of_ne_nil (chars_ne_nil written)
    exact ⟨c, rest, same, by rw [opening_of_chars same]; exact ⟨written, rfl⟩⟩
  · obtain ⟨c, rest, gap, -, rfl⟩ := mem_one_mul.mp blank
    exact ⟨c, rest, rfl, by rw [opening_of_isGap gap]; exact blank⟩

end Pattern
end Reckon.Lexeme
