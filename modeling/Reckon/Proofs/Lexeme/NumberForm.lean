/- Reckon.Proofs.Lexeme.NumberForm — the form that a number is given

The form of a number that opens with a digit is the one that its own text has
(`numberText_of_plain`), with one exception.  Where a mantissa, the letter of an
exponent and a sign stand at the front (`Signed`), the number goes on to the
digits behind the sign; and if there are none it ends with the letter and has the
form of the mantissa (`Signed.numberText`).  Either way it is the longest match.
-/
import Reckon.Proofs.Lexeme.Longest

namespace Reckon.Lexeme
set_option autoImplicit false

open Decimal (isDigit isExponentMark isSign)
open Pattern

/-- The form that a text has on its own. -/
def HasForm : NumberForm → List Char → Prop
  | .integer, text => text ∈ integer
  | .real, text => text ∈ real
  | .other, text => text ∉ integer ∧ text ∉ real

/-- No integer is a real. -/
theorem not_mem_real_of_mem_integer {text : List Char} (written : text ∈ integer) :
    text ∉ real := by
  intro real
  obtain ⟨c, rest, digit, rfl⟩ := (Mantissa.integer written).opens
  have whole := (mem_integer_iff digit).mp written
  rcases (mem_real_iff digit).mp real with other | spelled
  · cases whole.symm.trans other
  · rw [whole] at spelled
    exact exponent_ne_nil spelled rfl

theorem HasForm.unique {form form' : NumberForm} {text : List Char} (has : HasForm form text)
    (has' : HasForm form' text) : form = form' := by
  cases form with
  | integer =>
    cases form' with
    | integer => rfl
    | real => exact absurd has' (not_mem_real_of_mem_integer has)
    | other => exact absurd has has'.1
  | real =>
    cases form' with
    | integer => exact absurd has (not_mem_real_of_mem_integer has')
    | real => rfl
    | other => exact absurd has has'.2
  | other =>
    cases form' with
    | integer => exact absurd has' has.1
    | real => exact absurd has' has.2
    | other => rfl

section Tail
variable {c : Char} {rest tail : List Char} {form : NumberForm}

/-- A text that is a mantissa has the form of that. -/
theorem hasForm_of_mantissa (digit : isDigit c = true) (whole : mantissa (c :: rest) = (form, [])) :
    HasForm form (c :: rest) := by
  cases form with
  | integer => exact (mem_integer_iff digit).mpr whole
  | real => exact (mem_real_iff digit).mpr (.inl whole)
  | other =>
    obtain ⟨front, found, -, -⟩ := mantissa_eq digit rest
    rw [whole] at found
    cases found

/-- A mantissa and an exponent are a real. -/
theorem hasForm_of_exponent (digit : isDigit c = true) (parts : mantissa (c :: rest) = (form, tail))
    (spelled : tail ∈ exponent) : HasForm .real (c :: rest) :=
  (mem_real_iff digit).mpr (.inr (by rwa [parts]))

/-- A mantissa and anything else are neither an integer nor a real. -/
theorem hasForm_other (digit : isDigit c = true) (parts : mantissa (c :: rest) = (form, tail))
    (more : tail ≠ []) (foreign : tail ∉ exponent) : HasForm .other (c :: rest) := by
  refine ⟨fun integer => ?_, fun real => ?_⟩
  · have whole := (mem_integer_iff digit).mp integer
    rw [parts] at whole
    exact more (congrArg Prod.snd whole)
  · have within := (mem_real_iff digit).mp real
    rw [parts] at within
    rcases within with whole | spelled
    · exact more (congrArg Prod.snd whole)
    · exact foreign spelled

end Tail

/-! ## Signed exponents -/

/-- The source opens with a mantissa, the letter of an exponent and a sign. -/
structure Signed (source : List Char) (form : NumberForm) (front : List Char) (mark sign : Char)
    (more : List Char) : Prop where
  found : Mantissa form front
  marks : isExponentMark mark = true
  signs : isSign sign = true
  whole : source = front ++ mark :: sign :: more

theorem isWordChar_of_isExponentMark {mark : Char} (marks : isExponentMark mark = true) :
    isWordChar mark = true := by
  rcases (by simpa [isExponentMark] using marks : mark = 'e' ∨ mark = 'E') with rfl | rfl <;> rfl

/-- A sign belongs to no word. -/
theorem isWordChar_of_isSign {sign : Char} (signs : isSign sign = true) :
    isWordChar sign = false ∧ sign ≠ '.' := by
  rcases (by simpa [isSign] using signs : sign = '+' ∨ sign = '-') with rfl | rfl <;> decide

theorem isSign_of_mem_word {text : List Char} (written : text ∈ word) :
    ∀ c ∈ text, isSign c = false := by
  have inWord {c : Char} (inside : isWordChar c = true) : isSign c = false := by
    rw [Bool.eq_false_iff]
    intro sign
    rw [(isWordChar_of_isSign sign).1] at inside
    cases inside
  obtain ⟨first, whole, digit, each, rfl | ⟨places, each', rfl⟩⟩ := mem_word.mp written
  · exact List.forall_mem_cons.mpr
      ⟨inWord (isWordChar_of_isDigit digit), fun c member => inWord (each c member)⟩
  · refine List.forall_mem_cons.mpr ⟨inWord (isWordChar_of_isDigit digit), ?_⟩
    refine List.forall_mem_append.mpr ⟨fun c member => inWord (each c member), ?_⟩
    exact List.forall_mem_cons.mpr ⟨rfl, fun c member => inWord (each' c member)⟩

/-- Without a sign, an exponent is the letter and digits. -/
theorem cons_mem_exponent {mark : Char} {digits : List Char}
    (unsigned : ∀ c ∈ digits, isSign c = false) :
    mark :: digits ∈ exponent ↔ isExponentMark mark = true ∧ digits ∈ run isDigit := by
  rw [mem_exponent]
  constructor
  · rintro ⟨mark', sign, digits', marks, rfl | ⟨c, signed, rfl⟩, written, same⟩
    · cases same
      exact ⟨marks, written⟩
    · cases same
      rw [unsigned c List.mem_cons_self] at signed
      cases signed
  · rintro ⟨marks, written⟩
    exact ⟨mark, [], digits, marks, .inl rfl, written, rfl⟩

namespace Signed
variable {source front more : List Char} {form : NumberForm} {mark sign : Char}

/-- The number-like word at the front ends with the letter. -/
theorem splitWord (signed : Signed source form front mark sign more) :
    splitWord source = (front ++ [mark], sign :: more) := by
  obtain ⟨found, marks, signs, rfl⟩ := signed
  have inside : ∀ c ∈ [mark], isWordChar c = true := by
    intro c member
    rw [List.mem_singleton.mp member]
    exact isWordChar_of_isExponentMark marks
  have digits {run : List Char} (each : ∀ c ∈ run, isDigit c = true) :
      ∀ c ∈ run, isWordChar c = true := fun c member => isWordChar_of_isDigit (each c member)
  obtain ⟨outside, notPoint⟩ := isWordChar_of_isSign signs
  have ends : ∀ c ∈ (sign :: more).head?, isWordChar c = false := by
    rintro _ ⟨⟩
    exact outside
  unfold Lexeme.splitWord
  simp only [List.span_eq_takeWhile_dropWhile]
  cases found with
  | integer written =>
    have each := List.forall_mem_append.mpr ⟨digits (mem_run.mp written).2, inside⟩
    obtain ⟨taken, left⟩ := span_run each ends
    rw [List.append_assoc, List.singleton_append] at taken left
    rw [taken, left]
    split
    · rename_i same
      cases same
      exact absurd rfl notPoint
    · rfl
  | @real whole places written each' =>
    have point : ∀ c ∈ ('.' :: (places ++ mark :: sign :: more)).head?, isWordChar c = false := by
      rintro _ ⟨⟩
      rfl
    have first := span_run (digits (mem_run.mp written).2) point
    have second := span_run (List.forall_mem_append.mpr ⟨digits each', inside⟩) ends
    rw [List.append_assoc, List.singleton_append] at second
    rw [List.append_assoc, List.cons_append, first.1, first.2]
    simp [second.1, second.2]

/-- The number goes on behind the sign if there is a digit, and else ends with the letter. -/
theorem numberText (signed : Signed source form front mark sign more) :
    numberText source =
      if (more.takeWhile isDigit).isEmpty then (form, front ++ [mark])
      else (.real, front ++ mark :: sign :: more.takeWhile isDigit) := by
  have letter : mantissa (front ++ [mark]) = (form, [mark]) :=
    mantissa_append signed.found (ends_mark form signed.marks [])
  unfold Lexeme.numberText
  simp only [signed.splitWord, letter, signed.marks, signed.signs]
  simp

/-- With digits behind the sign it is a real. -/
theorem mem_real (signed : Signed source form front mark sign more)
    (filled : (more.takeWhile isDigit).isEmpty = false) :
    front ++ mark :: sign :: more.takeWhile isDigit ∈ real := by
  have written : more.takeWhile isDigit ∈ run isDigit := by
    refine mem_run.mpr ⟨?_, fun _ member => List.mem_takeWhile_imp member⟩
    rintro empty
    rw [empty] at filled
    cases filled
  have spelled : mark :: sign :: more.takeWhile isDigit ∈ exponent :=
    mem_exponent.mpr ⟨mark, [sign], _, signed.marks, .inr ⟨sign, signed.signs, rfl⟩, written, rfl⟩
  exact Pattern.mem_real.mpr (.inr (.inl ⟨form, front, _, signed.found, spelled, rfl⟩))

end Signed

/-- The number-like word opens with the digit that the source does. -/
theorem splitWord_opens {c : Char} (digit : isDigit c = true) (rest : List Char) :
    ∃ others, (splitWord (c :: rest)).1 = c :: others := by
  have parts := splitWord_append (c :: rest)
  obtain ⟨first, others, same⟩ := List.exists_cons_of_ne_nil
    (splitWord_ne_nil (isWordChar_of_isDigit digit) rest)
  rw [same, List.cons_append] at parts
  exact ⟨others, by rw [same, (List.cons.inj parts).1]⟩

/-- Without a signed exponent, a number is the longest number-like word, in the form which that
has. -/
theorem numberText_of_plain {c : Char} (digit : isDigit c = true) {rest : List Char}
    (plain : ∀ form front mark sign more, ¬Signed (c :: rest) form front mark sign more) :
    (numberText (c :: rest)).2 = (splitWord (c :: rest)).1 ∧
      HasForm (numberText (c :: rest)).1 (splitWord (c :: rest)).1 := by
  have whole := splitWord_append (c :: rest)
  have unsigned := isSign_of_mem_word (longest_word digit rest).within
  obtain ⟨others, opens⟩ := splitWord_opens digit rest
  obtain ⟨front, found, -, split⟩ := mantissa_eq digit others
  unfold numberText
  generalize splitWord (c :: rest) = word at *
  obtain ⟨text, behind⟩ := word
  obtain rfl : text = c :: others := opens
  cases parts : mantissa (c :: others) with | mk form tail =>
  rw [parts] at found split
  dsimp only at *
  cases tail with
  | nil => exact ⟨by rw [parts], by rw [parts]; exact hasForm_of_mantissa digit parts⟩
  | cons mark digits =>
    have tail_iff : mark :: digits ∈ exponent ↔ isExponentMark mark = true ∧ digits ∈ run isDigit :=
      cons_mem_exponent fun c member => unsigned c (by rw [split]; simp [member])
    have other (foreign : mark :: digits ∉ exponent) : HasForm .other (c :: others) :=
      hasForm_other digit parts (List.cons_ne_nil _ _) foreign
    rw [parts]
    dsimp only
    split
    · rename_i foreign
      refine ⟨rfl, other fun spelled => ?_⟩
      obtain ⟨marks, written⟩ := tail_iff.mp spelled
      have all : digits.all isDigit = true := List.all_eq_true.mpr (mem_run.mp written).2
      rw [marks, all] at foreign
      cases foreign
    rename_i native
    simp only [Bool.or_eq_true, Bool.not_eq_true', not_or, Bool.not_eq_false] at native
    obtain ⟨marks, all⟩ := native
    split
    · rename_i filled
      have written : digits ∈ run isDigit :=
        mem_run.mpr ⟨by simpa using filled, List.all_eq_true.mp all⟩
      exact ⟨rfl, hasForm_of_exponent digit parts (tail_iff.mpr ⟨marks, written⟩)⟩
    rename_i empty
    obtain rfl : digits = [] := by simpa using empty
    have foreign : [mark] ∉ exponent := fun spelled => (mem_run.mp (tail_iff.mp spelled).2).1 rfl
    split
    · rename_i sign more
      split
      · exact ⟨rfl, other foreign⟩
      · -- Here a sign follows the letter, and that is what `plain` rules out.
        rename_i signs
        have signed : Signed (c :: rest) form front mark sign more := by
          refine ⟨found, marks, by simpa using signs, ?_⟩
          rw [← whole, split]
          simp
        exact absurd signed (plain _ _ _ _ _)
    · exact ⟨rfl, other foreign⟩

/-! ## The longest number -/

/-- What is written like a number reaches no further than the number-like word, unless it goes on
to the digits of a signed exponent. -/
theorem within_word_or_signed {c : Char} {rest other : List Char} (digit : isDigit c = true)
    (within : other ∈ word + real) (stands : other <+: c :: rest) :
    other.length ≤ (splitWord (c :: rest)).1.length ∨
      ∃ form front mark sign more digits, Signed (c :: rest) form front mark sign more ∧
        digits ∈ run isDigit ∧ digits <+: more ∧ other = front ++ mark :: sign :: digits := by
  have ofWord (written : other ∈ word) : other.length ≤ (splitWord (c :: rest)).1.length :=
    (longest_word digit rest).most other written stands
  rcases within with written | real
  · exact .inl (ofWord written)
  rcases mem_real.mp real with whole | ⟨form, front, tail, found, spelled, rfl⟩ | point
  · have written : other ++ [] ∈ word := whole.append_mem_word nofun
    rw [List.append_nil] at written
    exact .inl (ofWord written)
  · obtain ⟨mark, _, digits, marks, rfl | ⟨sign, signs, rfl⟩, written, rfl⟩ :=
      mem_exponent.mp spelled
    · refine .inl (ofWord (found.append_mem_word ?_))
      exact List.forall_mem_cons.mpr ⟨isWordChar_of_isExponentMark marks,
        fun c member => isWordChar_of_isDigit ((mem_run.mp written).2 c member)⟩
    · obtain ⟨behind, whole⟩ := stands
      refine .inr ⟨form, front, mark, sign, digits ++ behind, digits, ⟨found, marks, signs, ?_⟩,
        written, List.prefix_append _ _, rfl⟩
      rw [← whole]
      simp
  · obtain ⟨others, rfl⟩ := fraction_opens point
    obtain ⟨rfl, -⟩ := List.cons_prefix_cons.mp stands
    cases digit

/-- A number that opens with a digit is the longest match. -/
theorem longest_number {c : Char} (digit : isDigit c = true) (rest : List Char) :
    Longest (word + real) (numberText (c :: rest)).2 (c :: rest) := by
  refine ⟨numberText_front _, ?_, fun other within stands => ?_⟩
  · by_cases reaches : ∃ form front mark sign more, Signed (c :: rest) form front mark sign more
    · obtain ⟨form, front, mark, sign, more, signed⟩ := reaches
      rw [signed.numberText]
      split
      · refine .inl (signed.found.append_mem_word fun c member => ?_)
        rw [List.mem_singleton.mp member]
        exact isWordChar_of_isExponentMark signed.marks
      · rename_i filled
        exact .inr (signed.mem_real (by simpa using filled))
    · rw [(numberText_of_plain digit fun form front mark sign more signed =>
        reaches ⟨form, front, mark, sign, more, signed⟩).1]
      exact .inl (longest_word digit rest).within
  · rcases within_word_or_signed digit within stands with
      inWord | ⟨form, front, mark, sign, more, digits, signed, written, behind, rfl⟩
    · have further : (splitWord (c :: rest)).1.length ≤ (numberText (c :: rest)).2.length := by
        rcases numberText_eq (c :: rest) with same | ⟨sign, more, -, longer⟩
        · rw [same]
        · rw [longer, List.length_append]
          exact Nat.le_add_right _ _
      exact inWord.trans further
    · obtain ⟨filled, each⟩ := mem_run.mp written
      have longer := length_le_takeWhile each behind
      have some := List.length_pos_of_ne_nil filled
      have taken : (more.takeWhile isDigit).isEmpty = false := by
        rw [Bool.eq_false_iff, Ne, List.isEmpty_iff, ← List.length_eq_zero_iff]
        omega
      rw [signed.numberText, taken]
      simp only [Bool.false_eq_true, if_false, List.length_append, List.length_cons]
      omega

/-! ## The form -/

/-- The text is a mantissa of this form and the letter of an exponent, and a sign without digits
follows. -/
inductive CutShort : (form : NumberForm) → (text behind : List Char) → Prop where
  | intro {form : NumberForm} {front more : List Char} {mark sign : Char}
      (found : Mantissa form front) (marks : isExponentMark mark = true)
      (signs : isSign sign = true) (ends : ∀ c ∈ more.head?, isDigit c = false) :
      CutShort form (front ++ [mark]) (sign :: more)

namespace CutShort
variable {form : NumberForm} {text behind : List Char}

theorem signed (short : CutShort form text behind) :
    ∃ front mark sign more, Signed (text ++ behind) form front mark sign more ∧
      text = front ++ [mark] := by
  obtain @⟨front, more, mark, sign, found, marks, signs, -⟩ := short
  refine ⟨front, mark, sign, more, ⟨found, marks, signs, ?_⟩, rfl⟩
  rw [List.append_assoc, List.singleton_append]

/-- A number that is cut short is neither an integer nor a real. -/
theorem hasForm (short : CutShort form text behind) : HasForm .other text := by
  obtain @⟨front, -, mark, -, found, marks, -, -⟩ := short
  have letter : mantissa (front ++ [mark]) = (form, [mark]) :=
    mantissa_append found (ends_mark form marks [])
  obtain ⟨c, rest, digit, rfl⟩ := found.opens
  have unsigned : ∀ c ∈ ([] : List Char), isSign c = false := List.forall_mem_nil _
  exact hasForm_other digit letter (List.cons_ne_nil _ _) fun spelled =>
    (mem_run.mp ((cons_mem_exponent unsigned).mp spelled).2).1 rfl

theorem behind_ne_nil (short : CutShort form text behind) : behind ≠ [] := by
  cases short
  exact List.cons_ne_nil _ _

theorem form_ne_other (short : CutShort form text behind) : form ≠ .other := by
  cases short with
  | intro found => cases found <;> decide

/-- Its form is that of its mantissa, so it is not the one that its text has. -/
theorem not_hasForm (short : CutShort form text behind) : ¬HasForm form text := fun has =>
  short.form_ne_other (has.unique short.hasForm)

end CutShort

/-- A number that opens with a digit has the form of its text, or it is cut short and has the form
of its mantissa. -/
theorem form_of_numberText {c : Char} {rest text behind : List Char} {form : NumberForm}
    (digit : isDigit c = true) (whole : text ++ behind = c :: rest)
    (number : numberText (c :: rest) = (form, text)) :
    CutShort form text behind ∨ HasForm form text ∧ ∀ form', ¬CutShort form' text behind := by
  by_cases reaches : ∃ form front mark sign more, Signed (c :: rest) form front mark sign more
  · obtain ⟨form', front, mark, sign, more, signed⟩ := reaches
    rw [signed.numberText] at number
    split at number
    · rename_i empty
      cases number
      have same : front ++ [mark] ++ behind = front ++ [mark] ++ sign :: more := by
        rw [whole, signed.whole]
        simp
      rw [List.append_cancel_left same]
      refine .inl (.intro signed.found signed.marks signed.signs fun c here => ?_)
      cases more with
      | nil => cases here
      | cons first more =>
        cases here
        rw [Bool.eq_false_iff]
        intro digit
        rw [List.takeWhile_cons_of_pos digit] at empty
        cases empty
    · rename_i filled
      cases number
      refine .inr ⟨signed.mem_real (by simpa using filled), fun form'' short => ?_⟩
      obtain ⟨front', mark', sign', more', signed', same⟩ := short.signed
      rw [whole] at signed'
      have word := congrArg Prod.fst (signed'.splitWord.symm.trans signed.splitWord)
      have length := congrArg List.length (same.trans word)
      simp at length
  · have plain : ∀ form front mark sign more, ¬Signed (c :: rest) form front mark sign more :=
      fun form front mark sign more signed => reaches ⟨form, front, mark, sign, more, signed⟩
    obtain ⟨same, has⟩ := numberText_of_plain digit plain
    rw [number] at same has
    rw [← same] at has
    refine .inr ⟨has, fun form' short => ?_⟩
    obtain ⟨front, mark, sign, more, signed, -⟩ := short.signed
    rw [whole] at signed
    exact plain _ _ _ _ _ signed

end Reckon.Lexeme
