/- Reckon.Proofs.Lexeme.First — the lexeme at the front is the longest match

Of all texts at the front of a source that are written like a lexeme, the scanner
takes the longest one (`longest_of_first?`), and it takes one if there is any
(`first?_eq_none_iff`).  What stands behind a lexeme only decides how far it goes:
where less of the source follows, a text that was the longest match still is
(`Longest.cut`).  The form that a number is given may change there, its text does
not.
-/
import Reckon.Proofs.Lexeme.NumberForm

namespace Reckon.Lexeme
set_option autoImplicit false

open Decimal (isDigit)
open Pattern

/-- What a lexeme of this kind is written like. -/
def pattern : Lexeme → Language Char
  | number _ _ => word + real
  | name _ => Pattern.name
  | symbol written => {written.chars}
  | blank => Pattern.blank

section Opening
variable {c : Char} {rest text : List Char}

theorem opening_of_longest? {written : Symbol} (read : Symbol.longest? (c :: rest) = some written) :
    opening c = .mark := by
  obtain ⟨first, others, chars⟩ := List.exists_cons_of_ne_nil (chars_ne_nil written)
  have front := chars_front read
  rw [chars] at front
  obtain ⟨rfl, -⟩ := List.cons_prefix_cons.mp front
  exact opening_of_chars chars

/-- The first character tells what is matched, and the lexeme is the longest match of that. -/
theorem longest_opening {lexeme : Lexeme} (found : first? (c :: rest) = some (lexeme, text)) :
    Longest (opening c).language text (c :: rest) ∧ text ∈ lexeme.pattern := by
  cases reads_of_first? found with
  | blank gap =>
    have longest : Longest (run isGap) _ (c :: rest) := longest_run gap
    rw [opening_of_isGap gap]
    exact ⟨longest, longest.within⟩
  | number digit read =>
    have longest := longest_number digit rest
    rw [read] at longest
    rw [opening_of_isDigit digit]
    exact ⟨longest, longest.within⟩
  | fraction read =>
    have longest := longest_fraction read
    exact ⟨longest, .inr (mem_real.mpr (.inr (.inr longest.within)))⟩
  | name letter =>
    have longest : Longest Pattern.name _ (c :: rest) := longest_name letter
    rw [opening_of_isNameStart letter]
    exact ⟨longest, longest.within⟩
  | symbol read =>
    rw [opening_of_longest? read]
    exact ⟨longest_symbol read, rfl⟩

/-- How a lexeme opens and what its text is tell which one it is, but for the form of a number. -/
theorem lexeme_of_opening {lexeme : Lexeme}
    (found : first? (c :: rest) = some (lexeme, text)) :
    match opening c with
    | .gap => lexeme = .blank
    | .digit | .point => ∃ form, lexeme = .number form (String.ofList text)
    | .letter => lexeme = .name (String.ofList text)
    | .mark => ∃ written : Symbol, lexeme = .symbol written ∧ written.chars = text := by
  cases reads_of_first? found with
  | blank gap => rw [opening_of_isGap gap]
  | number digit read => rw [opening_of_isDigit digit]; exact ⟨_, rfl⟩
  | fraction read => exact ⟨_, rfl⟩
  | name letter => rw [opening_of_isNameStart letter]
  | symbol read => rw [opening_of_longest? read]; exact ⟨_, rfl, rfl⟩

/-- The first character tells whether a lexeme is a number. -/
theorem isNumber_iff_opening {lexeme : Lexeme} (found : first? (c :: rest) = some (lexeme, text)) :
    (∃ form written, lexeme = .number form written) ↔ opening c = .digit ∨ opening c = .point := by
  have told := lexeme_of_opening found
  generalize opening c = opens at told ⊢
  cases opens with
  | gap | letter => simp [told]
  | digit | point =>
    obtain ⟨form, rfl⟩ := told
    simp
  | mark =>
    obtain ⟨written, rfl, -⟩ := told
    simp

theorem not_opening (missing : first? (c :: rest) = none) :
    ∀ other ∈ (opening c).language, ¬other <+: c :: rest := by
  unfold first? at missing
  dsimp only at missing
  split at missing
  · cases missing
  rename_i gap
  split at missing
  · cases missing
  rename_i digit
  split at missing
  · rename_i point
    obtain rfl : c = '.' := by simpa using point
    exact not_fraction_of_fractionText? (Option.map_eq_none_iff.mp missing)
  rename_i point
  split at missing
  · cases missing
  · rename_i letter
    have mark : opening c = .mark := by
      rw [opening, if_neg gap, if_neg digit, if_neg point, if_neg letter]
    rw [mark]
    exact not_symbol_of_longest? (Option.map_eq_none_iff.mp missing)

/-- What is written like a lexeme at the front is matched by what the first character tells. -/
theorem mem_opening {other : List Char} (within : other ∈ lexical) (stands : other <+: c :: rest) :
    other ∈ (opening c).language := by
  obtain ⟨first, others, rfl, told⟩ := opens_of_mem_lexical within
  obtain ⟨rfl, -⟩ := List.cons_prefix_cons.mp stands
  exact told

end Opening

/-- The lexeme at the front of a source is written like one of its kind, and no text that is
written like a lexeme reaches further. -/
theorem longest_of_first? {source text : List Char} {lexeme : Lexeme}
    (found : first? source = some (lexeme, text)) :
    Longest lexical text source ∧ text ∈ lexeme.pattern := by
  cases source with
  | nil => cases found
  | cons c rest =>
    obtain ⟨longest, kind⟩ := longest_opening found
    refine ⟨⟨longest.front, Opening.mem_lexical longest.within, fun other within stands => ?_⟩,
      kind⟩
    exact longest.most other (mem_opening within stands) stands

/-- There is a lexeme at the front unless nothing there is written like one. -/
theorem first?_eq_none_iff (source : List Char) :
    first? source = none ↔ ∀ other ∈ lexical, ¬other <+: source := by
  constructor
  · intro missing other within stands
    cases source with
    | nil =>
      obtain ⟨c, rest, rfl, -⟩ := opens_of_mem_lexical within
      cases List.prefix_nil.mp stands
    | cons c rest => exact not_opening missing other (mem_opening within stands) stands
  · intro missing
    cases found : first? source with
    | none => rfl
    | some first =>
      have longest := (longest_of_first? found).1
      exact absurd longest.front (missing _ longest.within)

/-- The longest match is the text of the lexeme at the front. -/
theorem first?_of_longest {source text : List Char} (longest : Longest lexical text source) :
    ∃ lexeme, first? source = some (lexeme, text) := by
  cases found : first? source with
  | none => exact absurd longest.front ((first?_eq_none_iff source).mp found _ longest.within)
  | some first =>
    obtain ⟨lexeme, text'⟩ := first
    obtain rfl := (longest_of_first? found).1.unique longest
    exact ⟨lexeme, rfl⟩

/-- A longest match stays one where the source ends earlier, behind it. -/
theorem Longest.cut {language : Language Char} {text rest behind : List Char}
    (longest : Longest language text (text ++ (rest ++ behind))) :
    Longest language text (text ++ rest) where
  front := List.prefix_append _ _
  within := longest.within
  most other within stands := by
    refine longest.most other within (stands.trans ?_)
    rw [← List.append_assoc]
    exact List.prefix_append _ _

/-- A number has the form of its text, or it is cut short and has the form of its mantissa. -/
theorem form_of_first? {form : NumberForm} {written : String} {text behind : List Char}
    (found : first? (text ++ behind) = some (.number form written, text)) :
    CutShort form text behind ∨ HasForm form text ∧ ∀ form', ¬CutShort form' text behind := by
  have reads := reads_of_first? found
  generalize whole : text ++ behind = source at reads
  cases reads with
  | number digit read => exact form_of_numberText digit whole read
  | fraction read =>
    have within := (longest_fraction read).within
    refine .inr ⟨mem_real.mpr (.inr (.inr within)), fun form' short => ?_⟩
    -- A mantissa opens with a digit and not with the point.
    obtain ⟨others, opens⟩ := fraction_opens within
    obtain ⟨front, mark, sign, more, signed, rfl⟩ := short.signed
    obtain ⟨first, digits, digit, rfl⟩ := signed.found.opens
    cases opens
    cases digit

/-- Alone, a number's text is a number of the form that it has. -/
theorem first?_alone {form : NumberForm} {written : String} {text behind : List Char}
    (found : first? (text ++ behind) = some (.number form written, text)) :
    ∃ form', first? text = some (.number form' written, text) ∧ HasForm form' text := by
  obtain ⟨some, -, spelled⟩ := first?_eq_some found
  obtain ⟨c, others, rfl⟩ := List.exists_cons_of_ne_nil some
  obtain ⟨lexeme, alone⟩ :
      ∃ lexeme, first? (c :: others ++ []) = Option.some (lexeme, c :: others) :=
    first?_of_longest (longest_of_first? found).1.cut
  obtain ⟨form', written', rfl⟩ :=
    (isNumber_iff_opening alone).mpr ((isNumber_iff_opening found).mp ⟨form, written, rfl⟩)
  obtain ⟨-, -, spelled'⟩ := first?_eq_some alone
  obtain rfl : written' = written := Eq.trans spelled' (Eq.symm spelled)
  refine ⟨form', by rwa [List.append_nil] at alone, ?_⟩
  rcases form_of_first? alone with short | ⟨has, -⟩
  · exact absurd rfl short.behind_ne_nil
  · exact has

end Reckon.Lexeme
