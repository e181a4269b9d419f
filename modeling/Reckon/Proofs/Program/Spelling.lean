/- Reckon.Proofs.Program.Spelling — a point behind a whole number changes nothing

Digits alone are scanned as an integer and read as one, of at most 63 bits, which is then made a
double.  With a point behind them, and zeros behind that, they are scanned as a real and read as a
decimal.  Both ways round the same ratio, but for a power of ten above and below the line, so both
come to the double that is nearest to the number (`compile_digits`).
-/
import Reckon.Proofs.Decimal.Rounding
import Reckon.Proofs.Expr.Numeral
import Reckon.Proofs.Program.Kind

namespace Reckon
set_option autoImplicit false

open Decimal (isDigit natOfDigits)
open Lexeme Lexeme.Pattern

/-! ## A text of one number -/

namespace Lexeme

/-- A text that is written like a number is a number as a whole. -/
theorem first?_of_mem_number {text : List Char} (within : text ∈ word + real) :
    ∃ form, first? text = some (.number form (String.ofList text), text) := by
  obtain ⟨c, rest, same, opens⟩ := number_opens within
  have kind : opening c = .digit ∨ opening c = .point := by
    rcases opens with digit | ⟨rfl, -⟩
    · exact .inl (opening_of_isDigit digit)
    · exact .inr rfl
  have number : text ∈ Opening.digit.language := within
  have longest : Longest lexical text text :=
    ⟨List.prefix_refl text, Opening.mem_lexical number, fun _ _ front => front.length_le⟩
  obtain ⟨lexeme, found⟩ := first?_of_longest longest
  rw [same] at found
  obtain ⟨form, written, rfl⟩ := (isNumber_iff_opening found).mpr kind
  obtain ⟨-, -, spelled⟩ := first?_eq_some found
  obtain rfl : written = String.ofList (c :: rest) := spelled
  rw [same]
  exact ⟨form, found⟩

end Lexeme

section Number
variable {form : NumberForm} {text : String}

theorem Lexeme.scan_number (within : text.toList ∈ word + real) (has : HasForm form text.toList) :
    scan text = .ok [⟨.number form text, 0⟩] := by
  obtain ⟨form', alone⟩ := first?_of_mem_number within
  have found : first? (text.toList ++ []) = some (.number form' text, text.toList) := by
    rw [List.append_nil, alone, String.ofList_toList]
  rcases form_of_first? found with short | ⟨has', -⟩
  · exact absurd rfl short.behind_ne_nil
  · obtain rfl := has.unique has'
    exact (Expr.scan_alone_iff found).mpr has

theorem Expr.parse_number (within : text.toList ∈ word + real) (has : HasForm form text.toList) :
    parse text = .ok (.literal form text 0) := by
  rw [parse_eq_ofLexemes (scan_number within has), ofLexemes_eq_ok_iff]
  exact (Derives.literal form text 0).of_primary .or

/-- A text that is written like a number compiles to its value, or has its fault. -/
theorem Program.compile_number (within : text.toList ∈ word + real)
    (has : HasForm form text.toList) :
    compile text = (Expr.literalValue form text 0).map fun x => ⟨[.value x]⟩ := by
  have parsed := Expr.parse_number within has
  cases valued : Expr.literalValue form text 0 with
  | error fault =>
    refine compile_of_inOrder_error parsed ?_
    rw [Expr.inOrder_eq, Expr.formula, valued]
    rfl
  | ok x =>
    refine (compile_eq_ok_iff _ _).mpr ⟨_, .value x, parsed, ?_, rfl⟩
    rw [Expr.formula, valued]
    rfl

end Number

/-! ## The nearest double -/

namespace Number

/-- The double has no sign, and no other double without a sign is nearer to the whole number; if
one is as near, this one's pattern is even. -/
structure Nearest (n : Nat) (x : Float) : Prop where
  unsigned : isNegative x = false
  magnitude : Decimal.IsNearest n 1 (magnitude x)

theorem isNegative_ofParts {negative : Bool} {size : Nat} (finite : size < Decimal.infinityBits) :
    isNegative (ofParts negative size) = negative := by
  have small : size < signBit := Nat.lt_trans finite (by decide)
  rw [isNegative, toNat_toBits_ofParts finite]
  cases negative with
  | false => exact decide_eq_false (Nat.not_le.mpr small)
  | true => exact decide_eq_true (Nat.le_add_right _ _)

theorem nearest_ofParts {n : Nat} (fits : n ≤ signBit) :
    Nearest n (ofParts false (Decimal.nearest n 1)) := by
  have finite := nearest_lt_infinityBits fits
  refine ⟨isNegative_ofParts finite, ?_⟩
  rw [magnitude_ofParts finite]
  exact Decimal.isNearest_nearest Nat.one_pos finite

end Number

/-! ## Spellings of a whole number -/

theorem Number.ofInteger_natCast (n : Nat) :
    ofInteger (n : Int) = ofParts false (Decimal.nearest n 1) := by
  have unsigned : decide ((n : Int) < 0) = false := decide_eq_false (Int.not_lt.mpr (by omega))
  rw [ofInteger, unsigned, Int.natAbs_natCast]

section Digits
variable {digits : String} (written : digits ≠ "") (each : ∀ c ∈ digits.toList, isDigit c = true)
include written each

theorem Lexeme.hasForm_of_digits : HasForm .integer digits.toList :=
  mem_run.mpr ⟨fun empty => written (String.toList_eq_nil_iff.mp empty), each⟩

theorem Number.readInteger?_digits (small : natOfDigits digits.toList < signBit) :
    readInteger? digits = some ((natOfDigits digits.toList : Nat) : Int) := by
  have integer := hasForm_of_digits written each
  have unsigned := Expr.splitSign_of_mem_number (.inl (mem_word_of_mem_integer integer))
  have filled : (digits.toList.isEmpty || !digits.toList.all isDigit) = false := by
    simpa [written] using each
  rw [readInteger?, unsigned]
  dsimp only
  rw [filled, if_neg Bool.false_ne_true, if_neg Bool.false_ne_true, if_pos small]

/-- Digits alone, below two to the power of 63, compile to the nearest double. -/
theorem Program.compile_integer (small : natOfDigits digits.toList < Number.signBit) :
    compile digits =
      .ok ⟨[.value (Number.ofParts false (Decimal.nearest (natOfDigits digits.toList) 1))]⟩ := by
  have integer := hasForm_of_digits written each
  rw [compile_number (.inl (mem_word_of_mem_integer integer)) integer,
    Expr.literalValue, Number.readInteger?_digits written each small, ← Number.ofInteger_natCast]
  rfl

theorem Program.compile_integer_error (large : Number.signBit ≤ natOfDigits digits.toList) :
    compile digits = .error (.literalOutOfRange digits 0) := by
  have integer := hasForm_of_digits written each
  have within : digits.toList ∈ word + real := .inl (mem_word_of_mem_integer integer)
  have refused : Expr.literalValue .integer digits 0 = .error (.literalOutOfRange digits 0) :=
    (Expr.outOfRange_iff_tooLarge within integer).mpr (.integer integer large)
  rw [compile_number within integer, refused]
  rfl

section Pointed
variable {text : String} {zeros : Nat}
  (spelled : text.toList = digits.toList ++ '.' :: List.replicate zeros '0')
include spelled

theorem Lexeme.hasForm_of_pointed : HasForm .real text.toList := by
  show text.toList ∈ real
  rw [spelled, mem_real]
  exact .inl (.real (hasForm_of_digits written each) fun _ => Decimal.isDigit_of_mem_zeros)

/-- A point with zeros behind it is read as digits alone are. -/
theorem Number.read?_pointed (small : natOfDigits digits.toList ≤ signBit) :
    read? text = some (ofParts false (Decimal.nearest (natOfDigits digits.toList) 1)) := by
  have real := hasForm_of_pointed written each spelled
  have filled : digits.toList ≠ [] := fun empty => written (String.toList_eq_nil_iff.mp empty)
  have places : ∀ c ∈ List.replicate zeros '0', isDigit c = true :=
    fun _ => Decimal.isDigit_of_mem_zeros
  have read := Decimal.read?_point each places filled
  rw [← spelled, Decimal.natOfDigits_append_zeros, List.length_replicate] at read
  rw [read?, Expr.splitSign_of_mem_number (.inr real)]
  dsimp only
  rw [read, Option.bind_eq_bind, Option.bind_some, nearest?, Decimal.toBits_mul_pow,
    if_pos (nearest_lt_infinityBits small)]

theorem Program.compile_pointed (small : natOfDigits digits.toList ≤ Number.signBit) :
    compile text =
      .ok ⟨[.value (Number.ofParts false (Decimal.nearest (natOfDigits digits.toList) 1))]⟩ := by
  have real := hasForm_of_pointed written each spelled
  rw [compile_number (.inr real) real, Expr.literalValue,
    Number.read?_pointed written each spelled small]
  rfl

end Pointed
end Digits

namespace Program

/-- **A point behind a whole number changes nothing.**  Digits that count for less than two to the
power of 63 compile to the double that is nearest to the number, with a point behind them or
without it, however many zeros stand in front.  Digits that count for more are out of range
without a point. -/
theorem compile_digits {digits : String} (written : digits ≠ "")
    (each : ∀ c ∈ digits.toList, isDigit c = true) :
    (natOfDigits digits.toList ≤ 2 ^ 63 - 1 →
        ∃ x, Number.Nearest (natOfDigits digits.toList) x ∧
          compile digits = .ok ⟨[.value x]⟩ ∧
          compile (digits ++ ".") = .ok ⟨[.value x]⟩ ∧
          compile (digits ++ ".0") = .ok ⟨[.value x]⟩) ∧
      (2 ^ 63 - 1 < natOfDigits digits.toList →
        compile digits = .error (.literalOutOfRange digits 0)) := by
  refine ⟨fun small => ?_, fun large => ?_⟩
  · have below : natOfDigits digits.toList < Number.signBit := Nat.lt_of_le_of_lt small (by decide)
    have within := Nat.le_of_lt below
    have point : (digits ++ ".").toList = digits.toList ++ '.' :: List.replicate 0 '0' :=
      String.toList_append
    have place : (digits ++ ".0").toList = digits.toList ++ '.' :: List.replicate 1 '0' :=
      String.toList_append
    exact ⟨_, Number.nearest_ofParts within, compile_integer written each below,
      compile_pointed written each point within, compile_pointed written each place within⟩
  · exact compile_integer_error written each large

/-- Two to the power of 53 and one more, which is between two doubles, and two to the power of
63. -/
theorem compile_digits_limits :
    (∃ x, Number.Nearest 9007199254740993 x ∧
        compile "009007199254740993" = .ok ⟨[.value x]⟩ ∧
        compile "009007199254740993." = .ok ⟨[.value x]⟩ ∧
        compile "009007199254740993.0" = .ok ⟨[.value x]⟩) ∧
      compile "9223372036854775808" =
        .error (.literalOutOfRange "9223372036854775808" 0) := by
  have between : natOfDigits "009007199254740993".toList = 9007199254740993 := by cbv
  have beyond : natOfDigits "9223372036854775808".toList = 9223372036854775808 := by cbv
  have each : ∀ c ∈ "009007199254740993".toList, isDigit c = true :=
    List.all_eq_true.mp (by cbv)
  have each' : ∀ c ∈ "9223372036854775808".toList, isDigit c = true :=
    List.all_eq_true.mp (by cbv)
  have tie := (compile_digits (by decide) each).1
  rw [between] at tie
  have large := (compile_digits (by decide) each').2
  rw [beyond] at large
  exact ⟨tie (by decide), large (by decide)⟩

end Program
end Reckon
