/- Reckon.Proofs.Lexeme.Cuts — how a source is cut into lexemes

A source that is scanned is cut into lexemes and blanks (`Cuts`): each lexeme is
the longest match at its byte offset, none reaches into the next, and there is
nothing but blanks outside of them.  A source that is not scanned has a character
where no lexeme starts, and what stands before it is scanned on its own
(`scan_cuts`).

Offsets count characters while scanning.  They count bytes as well because
whatever is written like a lexeme is ASCII (`lexical_le_ascii`), so the first
character of more than one byte is where scanning stops.
-/
import Reckon.Proofs.Lexeme.First

namespace Reckon.Lexeme
set_option autoImplicit false

open Decimal (isDigit isExponentMark isSign)
open Pattern
open Text (utf8Size_of_le utf8Size_of_isDigit utf8Len_of_ascii)
open scoped Computability

/-! ## One byte for each character -/

namespace Pattern

/-- Texts of characters of one byte. -/
def ascii : Language Char := (one fun c => c.utf8Size == 1)∗

theorem mem_ascii {text : List Char} : text ∈ ascii ↔ ∀ c ∈ text, c.utf8Size = 1 := by
  simp only [ascii, mem_any, beq_iff_eq]

section Characters
variable {accepts within : Char → Bool} {first second : Language Char}

theorem any_le_any (each : ∀ c, accepts c = true → within c = true) :
    (one accepts)∗ ≤ (one within)∗ :=
  fun _ inside => mem_any.mpr fun c member => each c (mem_any.mp inside c member)

theorem one_le_any (each : ∀ c, accepts c = true → within c = true) :
    one accepts ≤ (one within)∗ :=
  le_kstar.trans (any_le_any each)

theorem mul_le_any (left : first ≤ (one within)∗) (right : second ≤ (one within)∗) :
    first * second ≤ (one within)∗ :=
  (mul_le_mul' left right).trans_eq (kstar_mul_kstar _)

theorem run_le_any (each : ∀ c, accepts c = true → within c = true) :
    run accepts ≤ (one within)∗ :=
  mul_le_any (one_le_any each) (any_le_any each)

theorem maybe_le_any (language : first ≤ (one within)∗) : maybe first ≤ (one within)∗ :=
  add_le one_le_kstar language

/-- A number is made of letters, digits, low lines, points and signs. -/
theorem number_le_any (inside : ∀ c, isWordChar c = true → within c = true)
    (points : within '.' = true) (signs : ∀ c, isSign c = true → within c = true) :
    word + real ≤ (one within)∗ := by
  have digit (c : Char) (digit : isDigit c = true) : within c = true :=
    inside c (isWordChar_of_isDigit digit)
  have digits : run isDigit ≤ (one within)∗ := run_le_any digit
  have places : (one isDigit)∗ ≤ (one within)∗ := any_le_any digit
  have wordChars : (one isWordChar)∗ ≤ (one within)∗ := any_le_any inside
  have point : point ≤ (one within)∗ := one_le_any fun c same => by rwa [eq_of_beq same]
  have exponent : exponent ≤ (one within)∗ :=
    mul_le_any (mul_le_any (one_le_any fun c marks => inside c (isWordChar_of_isExponentMark marks))
      (maybe_le_any (one_le_any signs))) digits
  have fraction : fraction ≤ (one within)∗ :=
    mul_le_any (mul_le_any point digits) (maybe_le_any exponent)
  have real : real ≤ (one within)∗ :=
    add_le (add_le (mul_le_any (mul_le_any (mul_le_any digits point) places)
      (maybe_le_any exponent)) fraction) (mul_le_any digits exponent)
  have word : word ≤ (one within)∗ :=
    mul_le_any (mul_le_any (one_le_any digit) wordChars) (maybe_le_any (mul_le_any point wordChars))
  exact add_le word real

/-- A name is made of letters, digits and low lines. -/
theorem name_le_any (inside : ∀ c, isWordChar c = true → within c = true) :
    Pattern.name ≤ (one within)∗ :=
  mul_le_any
    (one_le_any fun c letter => inside c (by rw [isWordChar, letter, Bool.or_true]))
    (any_le_any inside)

end Characters

theorem utf8Size_of_isNameStart (c : Char) (letter : isNameStart c = true) : c.utf8Size = 1 := by
  simp only [isNameStart, Bool.or_eq_true, Bool.and_eq_true, decide_eq_true_eq, beq_iff_eq]
    at letter
  rcases letter with (⟨-, small⟩ | ⟨-, capital⟩) | rfl
  · exact utf8Size_of_le (Char.le_trans small (by decide))
  · exact utf8Size_of_le (Char.le_trans capital (by decide))
  · rfl

theorem utf8Size_of_isWordChar (c : Char) (inside : isWordChar c = true) : c.utf8Size = 1 := by
  rcases Bool.or_eq_true_iff.mp inside with digit | letter
  · exact utf8Size_of_isDigit c digit
  · exact utf8Size_of_isNameStart c letter

theorem utf8Size_of_isSign (c : Char) (signs : isSign c = true) : c.utf8Size = 1 := by
  rcases (by simpa [isSign] using signs : c = '+' ∨ c = '-') with rfl | rfl <;> rfl

theorem utf8Size_of_isGap (c : Char) (gap : isGap c = true) : c.utf8Size = 1 := by
  simp only [isGap, Bool.or_eq_true, beq_iff_eq] at gap
  rcases gap with (((rfl | rfl) | rfl) | rfl) | rfl <;> rfl

theorem symbol_le_ascii : Pattern.symbol ≤ ascii := by
  rintro _ ⟨written, rfl⟩
  exact mem_ascii.mpr (by cases written <;> simp [Symbol.chars, Char.utf8Size])

/-- Whatever is written like a lexeme has one byte for each character. -/
theorem lexical_le_ascii : lexical ≤ ascii := by
  have size {accepts : Char → Bool} (one : ∀ c, accepts c = true → c.utf8Size = 1) (c : Char)
      (accepted : accepts c = true) : (c.utf8Size == 1) = true :=
    beq_iff_eq.mpr (one c accepted)
  have number : word + real ≤ ascii :=
    number_le_any (size utf8Size_of_isWordChar) rfl (size utf8Size_of_isSign)
  have integer : integer ≤ ascii := run_le_any (size utf8Size_of_isDigit)
  have name : Pattern.name ≤ ascii := name_le_any (size utf8Size_of_isWordChar)
  have blank : Pattern.blank ≤ ascii := run_le_any (size utf8Size_of_isGap)
  obtain ⟨word, real⟩ := add_le_iff.mp number
  exact add_le (add_le (add_le (add_le (add_le real integer) word) name) symbol_le_ascii) blank

end Pattern

/-! ## What is taken -/

/-- How a lexeme is written; a run of blanks does not say how. -/
def spelling : Lexeme → List Char
  | number _ text | name text => text.toList
  | symbol written => written.chars
  | blank => []

theorem spelling_eq {text : List Char} {lexeme : Lexeme} (spelled : Spells text lexeme)
    (solid : lexeme.isBlank = false) : lexeme.spelling = text := by
  cases lexeme with
  | blank => cases solid
  | number form written | name written =>
    obtain rfl : written = String.ofList text := spelled
    exact String.toList_ofList
  | symbol written => exact spelled

theorem spelling_front {text : List Char} {lexeme : Lexeme} (spelled : Spells text lexeme) :
    lexeme.spelling <+: text := by
  cases solid : lexeme.isBlank with
  | false => rw [spelling_eq spelled solid]
  | true =>
    cases lexeme with
    | blank => exact List.nil_prefix
    | number | name | symbol => cases solid

namespace Takes
variable {behind source : List Char} {position : Nat} {lexemes : List Placed}

theorem ascii (takes : Takes behind position source lexemes) : ∀ c ∈ source, c.utf8Size = 1 := by
  induction takes with
  | done => exact List.forall_mem_nil _
  | next position first others ih =>
    have within := (longest_of_first? first).1.within
    exact List.forall_mem_append.mpr ⟨mem_ascii.mp (lexical_le_ascii within), ih⟩

/-- A lexeme that is taken is the one at the front of what stands at its position, and the lexemes
behind it are taken of what it leaves. -/
theorem split {front rest : List Placed} {placed : Placed}
    (takes : Takes behind position source (front ++ placed :: rest)) :
    ∃ before text after, source = before ++ (text ++ after) ∧
      placed.position = position + before.length ∧
      first? (text ++ (after ++ behind)) = some (placed.lexeme, text) ∧
      Takes behind (placed.position + text.length) after rest := by
  generalize whole : front ++ placed :: rest = lexemes at takes
  induction takes generalizing front with
  | done => simp at whole
  | @next lexeme text source lexemes position first others ih =>
    cases front with
    | nil =>
      obtain ⟨rfl, rfl⟩ := List.cons.inj whole
      exact ⟨[], text, source, rfl, rfl, first, others⟩
    | cons head front =>
      obtain ⟨before, text', after, rfl, stands, first', others'⟩ := ih (List.cons.inj whole).2
      refine ⟨text ++ before, text', after, by simp, ?_, first', others'⟩
      rw [stands, List.length_append, Nat.add_assoc]

theorem first (takes : Takes behind position source lexemes) :
    ∀ placed ∈ lexemes, ∃ before text after, source = before ++ (text ++ after) ∧
      placed.position = position + before.length ∧
      first? (text ++ (after ++ behind)) = some (placed.lexeme, text) := by
  intro placed member
  obtain ⟨front, rest, rfl⟩ := List.append_of_mem member
  obtain ⟨before, text, after, whole, stands, first, -⟩ := takes.split
  exact ⟨before, text, after, whole, stands, first⟩

/-- A lexeme is written with one byte for each character. -/
theorem utf8Len_spelling (takes : Takes behind position source lexemes) :
    ∀ placed ∈ lexemes,
      String.utf8Len placed.lexeme.spelling = placed.lexeme.spelling.length := by
  intro placed member
  obtain ⟨before, text, after, rfl, -, first⟩ := takes.first placed member
  obtain ⟨-, -, spelled⟩ := first?_eq_some first
  have each := mem_ascii.mp (lexical_le_ascii (longest_of_first? first).1.within)
  exact utf8Len_of_ascii fun c inside => each c ((spelling_front spelled).subset inside)

/-- A lexeme begins where those in front of it have ended. -/
theorem apart (takes : Takes behind position source lexemes) :
    lexemes.Pairwise fun first second =>
      first.position + first.lexeme.spelling.length ≤ second.position := by
  induction takes with
  | done => exact .nil
  | next position first others ih =>
    obtain ⟨-, -, spelled⟩ := first?_eq_some first
    refine .cons (fun placed member => ?_) ih
    have further := others.lays.position_le placed member
    have fits := (spelling_front spelled).length_le
    dsimp only
    omega

/-- Every character of the source is one of a lexeme's text. -/
theorem covers (takes : Takes behind position source lexemes) {before after : List Char} {c : Char}
    (whole : source = before ++ c :: after) :
    ∃ placed ∈ lexemes, ∃ text, Spells text placed.lexeme ∧ c ∈ text ∧
      placed.position ≤ position + before.length ∧
      position + before.length < placed.position + text.length := by
  induction takes generalizing before with
  | done position => cases before <;> cases whole
  | @next lexeme text rest lexemes position first others ih =>
    obtain ⟨-, -, spelled⟩ := first?_eq_some first
    by_cases inside : before.length < text.length
    · refine ⟨_, List.mem_cons_self, text, spelled, ?_, Nat.le_add_right _ _, ?_⟩
      · have here := congrArg (fun source => source[before.length]?) whole
        simp only [List.getElem?_append_left inside, List.getElem?_append_right (Nat.le_refl _),
          Nat.sub_self, List.getElem?_cons_zero] at here
        exact List.mem_of_getElem? here
      · exact Nat.add_lt_add_left inside position
    · obtain ⟨before', rfl⟩ : ∃ before', before = text ++ before' :=
        (List.prefix_of_prefix_length_le ⟨rest, whole⟩ (List.prefix_append _ _)
          (Nat.not_lt.mp inside)).imp fun _ same => same.symm
      rw [List.append_assoc] at whole
      obtain ⟨placed, member, text', spelled', among, starts, ends⟩ :=
        ih (List.append_cancel_left whole)
      refine ⟨placed, List.mem_cons_of_mem _ member, text', spelled', among, ?_, ?_⟩
      · rw [List.length_append]
        omega
      · rw [List.length_append]
        omega

/-- What is taken of a source can be taken without what stands behind it. -/
theorem cut (takes : Takes behind position source lexemes) :
    ∃ lexemes', Takes [] position source lexemes' := by
  induction takes with
  | done position => exact ⟨[], .done position⟩
  | next position first others ih =>
    obtain ⟨lexemes', others'⟩ := ih
    have longest := (longest_of_first? first).1.cut
    obtain ⟨lexeme', first'⟩ := first?_of_longest longest
    exact ⟨⟨lexeme', position⟩ :: lexemes', .next position (by rwa [List.append_nil]) others'⟩

end Takes

/-! ## Cuts -/

/-- The source is cut into these lexemes, with blanks between them. -/
structure Cuts (source : List Char) (lexemes : List Placed) : Prop where
  increasing : lexemes.Pairwise fun first second => first.position < second.position
  /-- Each lexeme stands at its offset in bytes, is written like one of its kind, and is the longest
  text there that is written like a lexeme. -/
  longest : ∀ placed ∈ lexemes, ∃ before after,
    source = before ++ (placed.lexeme.spelling ++ after) ∧
      String.utf8Len before = placed.position ∧
      placed.lexeme.spelling ∈ placed.lexeme.pattern ∧
      Longest lexical placed.lexeme.spelling (placed.lexeme.spelling ++ after)
  /-- No lexeme reaches into a later one. -/
  apart : lexemes.Pairwise fun first second =>
    first.position + String.utf8Len first.lexeme.spelling ≤ second.position
  /-- A character that is not blank lies in one of the lexemes. -/
  gaps : ∀ before c after, source = before ++ c :: after → isGap c = false →
    ∃ placed ∈ lexemes, placed.position ≤ String.utf8Len before ∧
      String.utf8Len before + c.utf8Size ≤
        placed.position + String.utf8Len placed.lexeme.spelling

theorem cuts_of_takes {source : List Char} {all : List Placed} (takes : Takes [] 0 source all) :
    Cuts source (all.filter fun placed => !placed.lexeme.isBlank) where
  increasing := takes.lays.increasing.filter _
  longest placed member := by
    obtain ⟨among, solid⟩ := List.mem_filter.mp member
    obtain ⟨before, text, after, rfl, stands, first⟩ := takes.first placed among
    obtain ⟨-, -, spelled⟩ := first?_eq_some first
    rw [List.append_nil] at first
    obtain ⟨longest, kind⟩ := longest_of_first? first
    rw [spelling_eq spelled (by simpa using solid)]
    refine ⟨before, after, rfl, ?_, kind, longest⟩
    rw [utf8Len_of_ascii fun c inside => takes.ascii c (List.mem_append_left _ inside), stands,
      Nat.zero_add]
  apart := by
    refine (List.Pairwise.imp_of_mem (fun {first second} member _ ends => ?_) takes.apart).filter _
    rwa [takes.utf8Len_spelling first member]
  gaps before c after whole solid := by
    obtain ⟨placed, among, text, spelled, inside, starts, ends⟩ := takes.covers whole
    have notBlank : placed.lexeme.isBlank = false := by
      rw [Bool.eq_false_iff]
      intro blank
      cases lexeme : placed.lexeme with
      | blank =>
        rw [lexeme] at spelled
        rw [spelled c inside] at solid
        cases solid
      | number | name | symbol => rw [lexeme] at blank; cases blank
    have each : ∀ c' ∈ before ++ c :: after, c'.utf8Size = 1 := by
      rw [← whole]
      exact takes.ascii
    refine ⟨placed, List.mem_filter.mpr ⟨among, by rw [notBlank]; rfl⟩, ?_⟩
    rw [takes.utf8Len_spelling placed among, spelling_eq spelled notBlank,
      utf8Len_of_ascii fun c' member => each c' (List.mem_append_left _ member),
      each c (by simp)]
    omega

/-- A source that is scanned is cut into the lexemes that are found.  One that is not has a
character where no lexeme starts, and not a blank; the fault shows it at its offset in bytes, and
all that stands before it is scanned. -/
theorem scan_cuts (source : String) :
    (∀ lexemes, scan source = .ok lexemes → Cuts source.toList lexemes) ∧
      ∀ fault, scan source = .error fault → ∃ before c after lexemes,
        source.toList = before ++ c :: after ∧
          fault = .strayCharacter (String.singleton c) (String.utf8Len before) ∧
          isGap c = false ∧ (∀ other ∈ lexical, ¬other <+: c :: after) ∧
          scan (String.ofList before) = .ok lexemes := by
  refine ⟨fun lexemes scanned => ?_, fun fault failed => ?_⟩
  · obtain ⟨all, takes, rfl⟩ := takes_of_scan scanned
    exact cuts_of_takes takes
  · obtain ⟨before, c, after, all, whole, takes, stray, rfl⟩ := takes_of_scan_error failed
    have missing := (first?_eq_none_iff _).mp stray
    obtain ⟨all', takes'⟩ := takes.cut
    rw [← String.toList_ofList (l := before)] at takes'
    refine ⟨before, c, after, _, whole, ?_, ?_, missing, scan_of_takes takes'⟩
    · rw [utf8Len_of_ascii takes.ascii]
    · rw [Bool.eq_false_iff]
      intro gap
      have blank : [c] ∈ Pattern.blank := mem_run.mpr ⟨nofun, by simpa using gap⟩
      exact missing [c] (.inr blank) ⟨after, rfl⟩

/-- An exponent that is given up leaves its sign to the next lexeme, and a fault stands behind what
is scanned, at its offset. -/
theorem scan_cuts_exponent :
    scan "1e+ x" = .ok [⟨.number .integer "1e", 0⟩, ⟨.symbol .plus, 2⟩, ⟨.name "x", 4⟩] ∧
      Cuts "1e+ x".toList [⟨.number .integer "1e", 0⟩, ⟨.symbol .plus, 2⟩, ⟨.name "x", 4⟩] ∧
      scan "1e+ é" = .error (.strayCharacter "é" 4) ∧
      ∃ before c after lexemes, "1e+ é".toList = before ++ c :: after ∧
        SourceFault.strayCharacter "é" 4 =
          .strayCharacter (String.singleton c) (String.utf8Len before) ∧
        isGap c = false ∧ (∀ other ∈ lexical, ¬other <+: c :: after) ∧
        scan (String.ofList before) = .ok lexemes := by
  have scanned : scan "1e+ x" =
      .ok [⟨.number .integer "1e", 0⟩, ⟨.symbol .plus, 2⟩, ⟨.name "x", 4⟩] := by cbv
  have failed : scan "1e+ é" = .error (.strayCharacter "é" 4) := by cbv
  exact ⟨scanned, (scan_cuts "1e+ x").1 _ scanned, failed, (scan_cuts "1e+ é").2 _ failed⟩

end Reckon.Lexeme
