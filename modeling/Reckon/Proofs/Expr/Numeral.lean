/- Reckon.Proofs.Expr.Numeral — what becomes of a number

A number has a form from scanning and a value from its form, if it has one.  The
form is the one that its text has, and so is the fault: a decimal that does not
fit is out of range, and any other text is not a decimal (`Numeral`).

It is otherwise where an exponent was given up.  Of `1e+x` the text `1e` becomes a
number, and it is an integer, though it is not written like one and is none when
it stands alone.  It is then found to be out of range (`numeral_of_scan`).
-/
import Reckon.Proofs.Expr.Blame
import Reckon.Proofs.Lexeme.Cuts

namespace Reckon.Expr
set_option autoImplicit false

open Decimal (isDigit isExponentMark isSign scaled?)
open Lexeme Lexeme.Pattern

/-! ## Reading -/

theorem read?_of_mantissa {form : NumberForm} {front tail : List Char}
    (found : Mantissa form front) (ends : Ends form tail) :
    ∃ d spelled, Decimal.read? (front ++ tail) = scaled? d spelled tail := by
  cases found with
  | integer written =>
    obtain ⟨some, each⟩ := mem_run.mp written
    exact ⟨_, _, Decimal.read?_whole_append each some fun c here =>
      ⟨(ends c here).1, (ends c here).2 rfl⟩⟩
  | @real digits places written each' =>
    obtain ⟨some, each⟩ := mem_run.mp written
    rw [List.append_assoc, List.cons_append]
    exact ⟨_, _, Decimal.read?_point_append each each' (by simp [some]) fun c here =>
      (ends c here).1⟩

/-- An exponent scales whatever stands in front of it. -/
theorem scaled?_of_exponent {tail : List Char} (spelled : tail ∈ exponent) (d : Decimal)
    (count : Nat) : ∃ d', scaled? d count tail = some d' := by
  obtain ⟨mark, sign, digits, marks, signed, written, rfl⟩ := mem_exponent.mp spelled
  obtain ⟨some, each⟩ := mem_run.mp written
  obtain ⟨down, split⟩ : ∃ down, Decimal.splitSign (sign ++ digits) = (down, digits) := by
    rcases signed with rfl | ⟨c, signs, rfl⟩
    · obtain ⟨c, others, digit, -, rfl⟩ := mem_one_mul.mp written
      exact ⟨false, Number.splitSign_of_unsigned (Number.isSign_of_isDigit digit)⟩
    · rcases (by simpa [isSign] using signs : c = '+' ∨ c = '-') with rfl | rfl
      · exact ⟨false, rfl⟩
      · exact ⟨true, rfl⟩
  have full : (digits.isEmpty || !digits.all isDigit) = false := by
    simpa [some] using each
  rw [scaled?, marks, if_pos rfl, Decimal.scaleBy?, split]
  simp only [full, Bool.false_eq_true, if_false]
  cases down with
  | false => exact ⟨_, rfl⟩
  | true => exact ⟨_, rfl⟩

/-- A real is read as a decimal. -/
theorem read?_of_mem_real {text : List Char} (real : text ∈ real) :
    ∃ d, Decimal.read? text = some d := by
  rcases mem_real.mp real with whole | ⟨form, front, tail, found, spelled, rfl⟩ | point
  · obtain ⟨d, spelled, read⟩ := read?_of_mantissa whole (ends_nil _)
    rw [List.append_nil] at read
    exact ⟨d, read⟩
  · obtain ⟨d, count, read⟩ := read?_of_mantissa found (ends_exponent form spelled)
    rw [read]
    exact scaled?_of_exponent spelled d count
  · obtain ⟨digits, tail, written, spelled, rfl⟩ := mem_fraction.mp point
    obtain ⟨some, each⟩ := mem_run.mp written
    have ends : ∀ c ∈ tail.head?, isDigit c = false := by
      rcases spelled with rfl | spelled
      · exact fun c here => nomatch here
      · exact fun c here => (ends_exponent .real spelled c here).1
    have read := Decimal.read?_point_append (List.forall_mem_nil _) each some ends
    rw [List.nil_append] at read
    rw [read]
    rcases spelled with rfl | spelled
    · exact ⟨_, rfl⟩
    · exact scaled?_of_exponent spelled _ _

/-- A number opens with no sign. -/
theorem splitSign_of_mem_number {text : List Char} (within : text ∈ word + real) :
    Decimal.splitSign text = (false, text) := by
  obtain ⟨c, rest, rfl, digit | ⟨rfl, -⟩⟩ := number_opens within
  · exact Number.splitSign_of_unsigned (Number.isSign_of_isDigit digit)
  · rfl

/-! ## Faults -/

/-- A decimal number that does not fit: an integer of more than 63 bits, or a real whose nearest
double is not finite. -/
inductive TooLarge : List Char → Prop where
  | integer {text : List Char} (written : text ∈ integer)
      (large : Number.signBit ≤ Decimal.natOfDigits text) : TooLarge text
  | real {text : List Char} {d : Decimal} (written : text ∈ real)
      (read : Decimal.read? text = some d) (large : Decimal.infinityBits ≤ d.toBits) :
      TooLarge text

section Fault
variable {form : NumberForm} {text : String} {position : Nat}

theorem literalValue_integer_iff :
    literalValue .integer text position = .error (.literalOutOfRange text position) ↔
      Number.readInteger? text = none := by
  unfold literalValue
  cases Number.readInteger? text <;> simp

theorem literalValue_real_iff :
    literalValue .real text position = .error (.literalOutOfRange text position) ↔
      Number.read? text = none := by
  unfold literalValue
  cases Number.read? text <;> simp

/-- Only what is written like an integer is read as one, and only if it has at most 63 bits. -/
theorem readInteger?_eq_none_iff (unsigned : Decimal.splitSign text.toList = (false, text.toList)) :
    Number.readInteger? text = none ↔
      text.toList ∉ integer ∨ Number.signBit ≤ Decimal.natOfDigits text.toList := by
  have shape : (text.toList.isEmpty || !text.toList.all isDigit) = false ↔
      text.toList ∈ integer := by
    rw [integer, mem_run, Bool.or_eq_false_iff, Bool.not_eq_false', List.all_eq_true,
      List.isEmpty_eq_false_iff]
  unfold Number.readInteger?
  rw [unsigned]
  dsimp only
  split
  · rename_i foreign
    rw [← shape, foreign]
    simp
  · rename_i native
    have written := shape.mp (Bool.eq_false_iff.mpr native)
    simp [written]

/-- What is read as a decimal is read as a number if its nearest double is finite. -/
theorem read?_eq_none_iff (unsigned : Decimal.splitSign text.toList = (false, text.toList)) :
    Number.read? text = none ↔
      ∀ d, Decimal.read? text.toList = some d → Decimal.infinityBits ≤ d.toBits := by
  have value : Number.read? text =
      (Decimal.read? text.toList).bind (Number.nearest? false) := by
    rw [Number.read?, unsigned]
    rfl
  rw [value]
  cases Decimal.read? text.toList with
  | none => exact iff_of_true rfl fun d same => absurd same.symm (Option.some_ne_none d)
  | some d =>
    rw [Option.bind_some, Number.nearest?]
    split
    · rename_i finite
      exact iff_of_false (Option.some_ne_none _) fun infinite =>
        Nat.not_le.mpr finite (infinite d rfl)
    · rename_i infinite
      refine iff_of_true rfl fun d' same => ?_
      cases same
      exact Nat.not_lt.mp infinite

/-- A number that has the form of its text is out of range if it does not fit. -/
theorem outOfRange_iff_tooLarge (within : text.toList ∈ word + real)
    (has : HasForm form text.toList) :
    literalValue form text position = .error (.literalOutOfRange text position) ↔
      TooLarge text.toList := by
  have unsigned := splitSign_of_mem_number within
  cases form with
  | integer =>
    have written : text.toList ∈ integer := has
    rw [literalValue_integer_iff, readInteger?_eq_none_iff unsigned]
    constructor
    · rintro (foreign | large)
      · exact absurd written foreign
      · exact .integer written large
    · rintro (⟨-, large⟩ | ⟨real, -, -⟩)
      · exact .inr large
      · exact absurd real (not_mem_real_of_mem_integer written)
  | real =>
    have written : text.toList ∈ real := has
    obtain ⟨d, read⟩ := read?_of_mem_real written
    rw [literalValue_real_iff, read?_eq_none_iff unsigned]
    constructor
    · intro infinite
      exact .real written read (infinite d read)
    · rintro (⟨integer, -⟩ | ⟨-, read', large⟩) d' same
      · exact absurd written (not_mem_real_of_mem_integer integer)
      · cases read'.symm.trans same
        exact large
  | other =>
    constructor
    · intro refused
      cases refused
    · rintro (⟨integer, -⟩ | ⟨real, -, -⟩)
      · exact absurd integer has.1
      · exact absurd real has.2

/-- A number that is cut short is out of range, however small it is. -/
theorem outOfRange_of_cutShort (within : text.toList ∈ word + real) {behind : List Char}
    (short : CutShort form text.toList behind) :
    literalValue form text position = .error (.literalOutOfRange text position) := by
  have unsigned := splitSign_of_mem_number within
  have other := short.hasForm
  generalize same : text.toList = written at short
  cases short with
  | @intro front more mark sign found marks signs ends =>
    cases found with
    | integer digits =>
      rw [literalValue_integer_iff, readInteger?_eq_none_iff unsigned]
      exact .inl other.1
    | @real whole places digits each =>
      rw [literalValue_real_iff, read?_eq_none_iff unsigned, same]
      obtain ⟨d, spelled, read⟩ :=
        read?_of_mantissa (.real digits each) (ends_mark .real marks [])
      intro d' read'
      rw [read, scaled?, if_pos marks] at read'
      cases read'

/-- Only a number without the form of a decimal is no decimal. -/
theorem notDecimal_iff :
    literalValue form text position = .error (.notDecimal text position) ↔ form = .other := by
  cases form with
  | integer => unfold literalValue; cases Number.readInteger? text <;> simp
  | real => unfold literalValue; cases Number.read? text <;> simp
  | other => exact iff_of_true rfl rfl

end Fault

/-! ## The numbers of a source -/

/-- What becomes of a number in a source, with `behind` what follows it there. -/
structure Numeral (source : String) (form : NumberForm) (text : String) (position : Nat)
    (behind : List Char) : Prop where
  stands : ∃ before, source.toList = before ++ (text.toList ++ behind) ∧
    String.utf8Len before = position
  /-- Its form is the one of its text, unless it is cut short. -/
  form_iff : HasForm form text.toList ↔ ¬CutShort form text.toList behind
  /-- Then, and only then, it is found again in its own text. -/
  alone_iff : scan text = .ok [⟨.number form text, 0⟩] ↔ HasForm form text.toList
  outOfRange_iff : literalValue form text position = .error (.literalOutOfRange text position) ↔
    TooLarge text.toList ∨ CutShort form text.toList behind
  notDecimal_iff : literalValue form text position = .error (.notDecimal text position) ↔
    HasForm .other text.toList ∧ ¬CutShort form text.toList behind

/-- A number is found in its own text alone if it has the form of that. -/
theorem scan_alone_iff {form : NumberForm} {text : String} {behind : List Char}
    (found : first? (text.toList ++ behind) = some (.number form text, text.toList)) :
    scan text = .ok [⟨.number form text, 0⟩] ↔ HasForm form text.toList := by
  obtain ⟨form', alone, has⟩ := first?_alone found
  have takes : Takes [] 0 text.toList [⟨.number form' text, 0⟩] := by
    have first : Takes [] 0 (text.toList ++ []) [⟨.number form' text, 0⟩] :=
      .next 0 (by rwa [List.append_nil, List.append_nil]) (.done _)
    rwa [List.append_nil] at first
  have scanned : scan text = .ok [⟨.number form' text, 0⟩] := scan_of_takes takes
  rw [scanned]
  constructor
  · intro same
    cases same
    exact has
  · intro has'
    rw [has.unique has']

theorem numeral_of_first? {source : String} {form : NumberForm} {text : String} {position : Nat}
    {behind : List Char}
    (stands : ∃ before, source.toList = before ++ (text.toList ++ behind) ∧
      String.utf8Len before = position)
    (found : first? (text.toList ++ behind) = some (.number form text, text.toList)) :
    Numeral source form text position behind := by
  have within : text.toList ∈ word + real := (longest_of_first? found).2
  have alone := scan_alone_iff found
  rcases form_of_first? found with short | ⟨has, whole⟩
  · exact {
      stands := stands
      form_iff := iff_of_false short.not_hasForm (not_not_intro short)
      alone_iff := alone
      outOfRange_iff := iff_of_true (outOfRange_of_cutShort within short) (.inr short)
      notDecimal_iff := notDecimal_iff.trans
        (iff_of_false short.form_ne_other fun other => other.2 short) }
  · exact {
      stands := stands
      form_iff := iff_of_true has (whole form)
      alone_iff := alone
      outOfRange_iff := (outOfRange_iff_tooLarge within has).trans
        (or_iff_left (whole form)).symm
      notDecimal_iff := by
        rw [notDecimal_iff]
        constructor
        · rintro rfl
          exact ⟨has, whole _⟩
        · exact fun other => has.unique other.1 }

/-- The fault of a number is found at a number, in its value. -/
theorem literalValue_of_compile {source : String} {lexemes : List Placed}
    (scanned : scan source = .ok lexemes) {text : String} {position : Nat} {fault : SourceFault}
    (failed : Program.compile source = .error fault)
    (literal : fault = .literalOutOfRange text position ∨ fault = .notDecimal text position) :
    ∃ form, ⟨.number form text, position⟩ ∈ lexemes ∧
      literalValue form text position = .error fault := by
  have read := readingOrder_of_compile failed
  rcases readingOrder_eq_error read with ⟨before, c, after, -, rfl⟩ | ⟨lexemes', scanned', found⟩
  · rcases literal with same | same <;> cases same
  cases scanned.symm.trans scanned'
  rcases literal with rfl | rfl
  · generalize same : SourceFault.literalOutOfRange text position = fault at found
    cases found <;> cases same
    rename_i member refused
    exact ⟨_, member, refused⟩
  · generalize same : SourceFault.notDecimal text position = fault at found
    cases found <;> cases same
    rename_i member
    exact ⟨_, member, rfl⟩

/-- A number has the form of its text, and is found again in it, unless it is cut short.  It is out
of range if it is a decimal that does not fit, or cut short, and no decimal if it is not written
like one; and these faults of an expression are found nowhere but at a number that has them. -/
theorem numeral_of_scan (source : String) {lexemes : List Placed}
    (scanned : scan source = .ok lexemes) :
    (∀ form text position, ⟨.number form text, position⟩ ∈ lexemes →
        ∃ behind, Numeral source form text position behind) ∧
      ∀ text position fault, Program.compile source = .error fault →
        fault = .literalOutOfRange text position ∨ fault = .notDecimal text position →
          ∃ form, ⟨.number form text, position⟩ ∈ lexemes ∧
            literalValue form text position = .error fault := by
  refine ⟨fun form text position member => ?_, fun text position fault =>
    literalValue_of_compile scanned⟩
  obtain ⟨all, takes, rfl⟩ := takes_of_scan scanned
  obtain ⟨before, written, after, whole, stands, first⟩ :=
    takes.first _ (List.mem_of_mem_filter member)
  obtain ⟨-, -, spelled⟩ := first?_eq_some first
  obtain rfl : text = String.ofList written := spelled
  rw [Nat.zero_add] at stands
  rw [List.append_nil] at first
  obtain rfl : position = before.length := stands
  refine ⟨after, numeral_of_first? ⟨before, ?_, ?_⟩ ?_⟩
  · rwa [String.toList_ofList]
  · refine Text.utf8Len_of_ascii fun c inside => takes.ascii c ?_
    rw [whole]
    exact List.mem_append_left _ inside
  · rwa [String.toList_ofList]

/-- Of two numbers, the one that is cut short is refused. -/
theorem numeral_cut_short :
    let lexemes : List Placed :=
      [⟨.number .integer "1e", 1⟩, ⟨.symbol .minus, 3⟩, ⟨.number .real ".5", 4⟩]
    scan " 1e-.5" = .ok lexemes ∧
      (∀ form text position, ⟨.number form text, position⟩ ∈ lexemes →
        ∃ behind, Numeral " 1e-.5" form text position behind) ∧
      Program.compile " 1e-.5" = .error (.literalOutOfRange "1e" 1) ∧
      ∃ form, ⟨.number form "1e", 1⟩ ∈ lexemes ∧
        literalValue form "1e" 1 = .error (.literalOutOfRange "1e" 1) := by
  intro lexemes
  have scanned : scan " 1e-.5" = .ok lexemes := by cbv
  have failed : Program.compile " 1e-.5" = .error (.literalOutOfRange "1e" 1) := by cbv
  obtain ⟨numerals, faults⟩ := numeral_of_scan " 1e-.5" scanned
  exact ⟨scanned, numerals, failed, faults _ _ _ failed (.inl rfl)⟩

/-- A number need not have the form of its text, and one that is found to be out of range need not
be a decimal. -/
theorem numeral_not_of_its_text :
    (¬∀ (source : String) (lexemes : List Placed) (form : NumberForm) (text : String)
        (position : Nat), scan source = .ok lexemes →
          ⟨.number form text, position⟩ ∈ lexemes → HasForm form text.toList) ∧
      ¬∀ (source text : String) (position : Nat),
        Program.compile source = .error (.literalOutOfRange text position) →
          text.toList ∈ integer ∨ text.toList ∈ real := by
  have found : Mantissa .integer ['1'] :=
    .integer (mem_run.mpr ⟨nofun, List.forall_mem_singleton.mpr rfl⟩)
  have ends : ∀ c ∈ ['x'].head?, isDigit c = false := by
    rintro _ ⟨⟩
    rfl
  have short : CutShort .integer "1e".toList ['+', 'x'] := .intro found rfl rfl ends
  refine ⟨fun has => ?_, fun decimal => ?_⟩
  · have scanned : scan "1e+x" =
        .ok [⟨.number .integer "1e", 0⟩, ⟨.symbol .plus, 2⟩, ⟨.name "x", 3⟩] := by cbv
    exact short.not_hasForm (has _ _ _ "1e" 0 scanned List.mem_cons_self)
  · have failed : Program.compile "1e+x" = .error (.literalOutOfRange "1e" 0) := by cbv
    rcases decimal _ _ _ failed with integer | real
    · exact short.hasForm.1 integer
    · exact short.hasForm.2 real

end Reckon.Expr
