/- Reckon.Proofs.Decimal.RoundTrip — a magnitude is read back from its text

The text of a decimal is its digits with a point among them, and reading finds the same
digits and the same number of places (`read?_text`).  The decimal that is written for a
magnitude rounds to that magnitude again: the exact one, because rounding has nothing to
round away (`toBits_ofBits`), and the shortest one, because the search stops only at a
decimal that does (`toBits_shortest`).
-/
import Mathlib
import Reckon.Decimal.Shortest
import Reckon.Decimal.Text

namespace Reckon
set_option autoImplicit false

/-- A run of a class is taken off the front up to what is outside of it. -/
theorem span_run {accepts : Char → Bool} {front rest : List Char}
    (each : ∀ c ∈ front, accepts c = true) (ends : ∀ c ∈ rest.head?, accepts c = false) :
    (front ++ rest).takeWhile accepts = front ∧ (front ++ rest).dropWhile accepts = rest := by
  have nothing : rest.takeWhile accepts = [] ∧ rest.dropWhile accepts = rest := by
    cases rest with
    | nil => exact ⟨rfl, rfl⟩
    | cons c rest => simp [ends c rfl]
  rw [List.takeWhile_append_of_pos each, List.dropWhile_append_of_pos each, nothing.1, nothing.2,
    List.append_nil]
  exact ⟨rfl, rfl⟩

namespace Decimal

/-! ## Digits -/

theorem isDigit_of_mem_digitsOfNat {n : Nat} {c : Char} (member : c ∈ digitsOfNat n) :
    isDigit c = true := by
  show c.isDigit = true
  exact Nat.isDigit_of_mem_toDigits (by decide) (by decide) member

theorem natOfDigits_eq (digits : List Char) : natOfDigits digits = Nat.ofDigitChars 10 digits 0 :=
  Nat.ofDigitChars_eq_foldl.symm

theorem natOfDigits_digitsOfNat (n : Nat) : natOfDigits (digitsOfNat n) = n := by
  rw [natOfDigits_eq, digitsOfNat, Nat.ofDigitChars_ten_toDigits]

/-- Digits in front count as many powers of ten more as digits stand behind them. -/
theorem natOfDigits_append (before after : List Char) :
    natOfDigits (before ++ after) = natOfDigits before * 10 ^ after.length + natOfDigits after := by
  rw [natOfDigits_eq, natOfDigits_eq, natOfDigits_eq, Nat.ofDigitChars_append,
    Nat.ofDigitChars_eq_ofDigitChars_zero, Nat.mul_comm]

theorem natOfDigits_zeros (count : Nat) : natOfDigits (List.replicate count '0') = 0 := by
  rw [natOfDigits_eq, Nat.ofDigitChars_replicate_zero, Nat.mul_zero]

theorem isDigit_of_mem_zeros {count : Nat} {c : Char} (member : c ∈ List.replicate count '0') :
    isDigit c = true := by
  rw [List.eq_of_mem_replicate member]
  rfl

theorem natOfDigits_leftpad (width : Nat) (digits : List Char) :
    natOfDigits (digits.leftpad width '0') = natOfDigits digits := by
  rw [List.leftpad, natOfDigits_append, natOfDigits_zeros, Nat.zero_mul, Nat.zero_add]

/-- Zeros behind digits are so many powers of ten. -/
theorem natOfDigits_append_zeros (digits : List Char) (count : Nat) :
    natOfDigits (digits ++ List.replicate count '0') = natOfDigits digits * 10 ^ count := by
  rw [natOfDigits_append, natOfDigits_zeros, Nat.add_zero, List.length_replicate]

theorem isDigit_of_mem_leftpad {width n : Nat} {c : Char}
    (member : c ∈ (digitsOfNat n).leftpad width '0') : isDigit c = true := by
  rcases List.mem_append.mp member with padding | digit
  · exact isDigit_of_mem_zeros padding
  · exact isDigit_of_mem_digitsOfNat digit

/-- The digits after the point are as many as the places. -/
theorem length_leftpad_digits {width n : Nat} (room : 0 < width) (fits : n < 10 ^ width) :
    ((digitsOfNat n).leftpad width '0').length = width := by
  have short : (digitsOfNat n).length ≤ width := Nat.toDigits_length 10 n width room fits
  rw [List.length_leftpad, Nat.max_eq_left short]

/-- A decimal's text opens with a digit. -/
theorem text_opens (d : Decimal) : ∃ c rest, d.text = c :: rest ∧ isDigit c = true := by
  cases whole : digitsOfNat (d.digits / Nat.pow 10 d.places) with
  | nil => exact absurd whole Nat.toDigits_ne_nil
  | cons c rest =>
    have digit : isDigit c = true := isDigit_of_mem_digitsOfNat (whole ▸ List.mem_cons_self)
    rw [text, whole]
    split
    case isTrue => exact ⟨c, rest, rfl, digit⟩
    case isFalse => exact ⟨c, _, rfl, digit⟩

/-- A decimal's text has nothing but digits and a point. -/
theorem isDigit_or_point_of_mem_text {d : Decimal} {c : Char} (member : c ∈ d.text) :
    isDigit c = true ∨ c = '.' := by
  rw [text] at member
  split at member
  case isTrue => exact .inl (isDigit_of_mem_digitsOfNat member)
  case isFalse =>
    rcases List.mem_append.mp member with whole | fraction
    · exact .inl (isDigit_of_mem_digitsOfNat whole)
    · rcases List.mem_cons.mp fraction with point | digit
      · exact .inr point
      · exact .inl (isDigit_of_mem_leftpad digit)

/-- Digits are taken off the front up to what is no digit. -/
theorem span_digits {digits rest : List Char} (each : ∀ c ∈ digits, isDigit c = true)
    (ends : ∀ c ∈ rest.head?, isDigit c = false) :
    (digits ++ rest).span isDigit = (digits, rest) := by
  obtain ⟨taken, left⟩ := span_run each ends
  rw [List.span_eq_takeWhile_dropWhile, taken, left]

/-- What stands behind the digits of a decimal makes this of it: an exponent scales it, and
anything else spoils it. -/
def scaled? (d : Decimal) (spelled : Nat) : List Char → Option Decimal
  | [] => some d
  | mark :: tail => if isExponentMark mark then d.scaleBy? spelled tail else none

/-- Digits in front of anything that does not go on with them are read as a whole number. -/
theorem read?_whole_append {whole tail : List Char} (each : ∀ c ∈ whole, isDigit c = true)
    (written : whole ≠ []) (ends : ∀ c ∈ tail.head?, isDigit c = false ∧ c ≠ '.') :
    read? (whole ++ tail) = scaled? ⟨natOfDigits whole, 0⟩ whole.length tail := by
  have full : whole.isEmpty = false := by simpa using written
  have noPoint : splitFraction tail = ([], tail) := by
    unfold splitFraction
    split
    · exact absurd rfl (ends '.' rfl).2
    · rfl
  simp only [read?, span_digits each fun c here => (ends c here).1, noPoint, full, List.append_nil,
    List.length_nil]
  cases tail <;> rfl

/-- Digits with a point before, among or behind them are read as all the digits, and as many
places as stand behind the point. -/
theorem read?_point_append {whole fraction tail : List Char} (each : ∀ c ∈ whole, isDigit c = true)
    (each' : ∀ c ∈ fraction, isDigit c = true) (written : whole ++ fraction ≠ [])
    (ends : ∀ c ∈ tail.head?, isDigit c = false) :
    read? (whole ++ '.' :: (fraction ++ tail)) =
      scaled? ⟨natOfDigits (whole ++ fraction), fraction.length⟩ (whole ++ fraction).length
        tail := by
  have spanned : (whole ++ '.' :: (fraction ++ tail)).span isDigit =
      (whole, '.' :: (fraction ++ tail)) := span_digits each (by simp [isDigit])
  have full : (whole ++ fraction).isEmpty = false := by simpa using written
  simp only [read?, spanned, splitFraction, span_digits each' ends, full]
  cases tail <;> rfl

/-- Digits alone are read as a whole number. -/
theorem read?_whole {whole : List Char} (each : ∀ c ∈ whole, isDigit c = true)
    (written : whole ≠ []) : read? whole = some ⟨natOfDigits whole, 0⟩ := by
  have ends : ∀ c ∈ ([] : List Char).head?, isDigit c = false ∧ c ≠ '.' := by simp
  have read := read?_whole_append each written ends
  rwa [List.append_nil] at read

/-- Digits with a point among them are read as all the digits, and as many places as
stand behind the point. -/
theorem read?_point {whole fraction : List Char} (each : ∀ c ∈ whole, isDigit c = true)
    (each' : ∀ c ∈ fraction, isDigit c = true) (written : whole ≠ []) :
    read? (whole ++ '.' :: fraction) =
      some ⟨natOfDigits (whole ++ fraction), fraction.length⟩ := by
  have ends : ∀ c ∈ ([] : List Char).head?, isDigit c = false := by simp
  have read := read?_point_append each each' (by simp [written]) ends
  rwa [List.append_nil] at read

/-- **A decimal is read back from its text.** -/
theorem read?_text (d : Decimal) : read? d.text = some d := by
  obtain ⟨digits, places⟩ := d
  have whole : ∀ c ∈ digitsOfNat (digits / Nat.pow 10 places), isDigit c = true :=
    fun _ => isDigit_of_mem_digitsOfNat
  have written : digitsOfNat (digits / Nat.pow 10 places) ≠ [] := Nat.toDigits_ne_nil
  by_cases integral : places = 0
  · subst integral
    have same : digits / Nat.pow 10 0 = digits := Nat.div_one digits
    have plain : text ⟨digits, 0⟩ = digitsOfNat (digits / Nat.pow 10 0) := rfl
    rw [plain, read?_whole whole written, natOfDigits_digitsOfNat, same]
  · have fits : digits % Nat.pow 10 places < 10 ^ places :=
      Nat.mod_lt _ (Nat.pow_pos (by decide))
    have length := length_leftpad_digits (Nat.pos_of_ne_zero integral) fits
    have value : digits / Nat.pow 10 places * 10 ^ places + digits % Nat.pow 10 places = digits :=
      Nat.div_add_mod' digits (10 ^ places)
    have pointed : text ⟨digits, places⟩ = digitsOfNat (digits / Nat.pow 10 places) ++
        '.' :: (digitsOfNat (digits % Nat.pow 10 places)).leftpad places '0' := if_neg integral
    rw [pointed, read?_point whole (fun _ => isDigit_of_mem_leftpad) written, natOfDigits_append,
      natOfDigits_leftpad, natOfDigits_digitsOfNat, natOfDigits_digitsOfNat, length, value]

/-! ## Rounding -/

/-- A whole number is rounded to itself. -/
theorem roundHalfEven_mul (n : Nat) {den : Nat} (positive : 0 < den) :
    roundHalfEven (n * den) den = n := by
  simp [roundHalfEven, Nat.mul_div_cancel n positive, positive]

/-- The bits that rounding takes for surplus are those by which the significand is shifted. -/
theorem log2_units_sub (bits : Nat) : (units bits).log2 - 52 = shift bits := by
  unfold units significand
  cases shifted : shift bits with
  | zero =>
    have small : bits < 2 ^ 53 := by
      unfold shift leadingBit at shifted
      omega
    have log : bits.log2 ≤ 52 := by
      by_cases zero : bits = 0
      · rw [zero]
        decide
      · exact Nat.le_of_lt_succ ((Nat.log2_lt zero).mpr small)
    simp only [Nat.zero_mul, Nat.sub_zero, Nat.pow_eq, Nat.pow_zero, Nat.mul_one]
    omega
  | succ s =>
    have least : 2 ^ 52 ≤ bits - (s + 1) * leadingBit := by
      unfold shift leadingBit at *
      omega
    have most : bits - (s + 1) * leadingBit < 2 ^ 53 := by
      unfold shift leadingBit at *
      omega
    generalize bits - (s + 1) * leadingBit = m at least most
    have log : (m * 2 ^ (s + 1)).log2 = 52 + (s + 1) := by
      have positive : 0 < 2 ^ (s + 1) := Nat.pow_pos (by decide)
      refine (Nat.log2_eq_iff (by positivity)).mpr ⟨?_, ?_⟩
      · rw [Nat.pow_add 2 52 (s + 1)]
        exact Nat.mul_le_mul_right _ least
      · rw [show 52 + (s + 1) + 1 = 53 + (s + 1) by omega, Nat.pow_add 2 53 (s + 1)]
        exact Nat.mul_lt_mul_of_pos_right most positive
    rw [Nat.pow_eq, log]
    omega

theorem shift_add_significand (bits : Nat) :
    shift bits * leadingBit + significand bits = bits := by
  unfold significand shift leadingBit
  omega

/-- A ratio that a magnitude has exactly is rounded to that magnitude. -/
theorem nearest_of_units {num den bits : Nat} (positive : 0 < den)
    (within : bits ≤ infinityBits)
    (value : num * Nat.pow 2 binaryPlaces = units bits * den) : nearest num den = bits := by
  have whole : units bits * den = significand bits * (den * Nat.pow 2 (shift bits)) := by
    rw [units]
    ac_rfl
  have shifted : 0 < den * Nat.pow 2 (shift bits) :=
    Nat.mul_pos positive (Nat.pow_pos (by decide))
  simp only [nearest, value, Nat.mul_div_cancel _ positive, log2_units_sub]
  rw [whole, roundHalfEven_mul _ shifted, shift_add_significand, Nat.min_eq_right within]

theorem roundHalfEven_le (num den : Nat) : roundHalfEven num den ≤ num / den + 1 := by
  unfold roundHalfEven
  dsimp only
  generalize num / den = low
  repeat' split
  all_goals omega

/-- Rounding a ratio of few bits leaves it in a low binade. -/
theorem nearest_le (num den : Nat) :
    nearest num den ≤ ((num * Nat.pow 2 binaryPlaces / den).log2 - 52 + 2) * leadingBit := by
  unfold nearest
  dsimp only
  generalize num * Nat.pow 2 binaryPlaces = scaled
  generalize bits : (scaled / den).log2 - 52 = surplus
  have rounded := roundHalfEven_le scaled (den * Nat.pow 2 surplus)
  have short : scaled / (den * Nat.pow 2 surplus) < 2 ^ 53 := by
    rw [← Nat.div_div_eq_div_mul]
    refine (Nat.div_lt_iff_lt_mul (Nat.pow_pos (by decide))).mpr ?_
    calc scaled / den < 2 ^ ((scaled / den).log2 + 1) := Nat.lt_log2_self
      _ ≤ 2 ^ (53 + surplus) := Nat.pow_le_pow_right (by decide) (by omega)
      _ = 2 ^ 53 * 2 ^ surplus := Nat.pow_add 2 53 surplus
  refine Nat.le_trans (Nat.min_le_right _ _) ?_
  rw [Nat.add_mul]
  unfold leadingBit
  omega

/-- The exact decimal of a magnitude rounds to it. -/
theorem toBits_ofBits {bits : Nat} (within : bits ≤ infinityBits) : (ofBits bits).toBits = bits :=
  nearest_of_units (Nat.pow_pos (by decide)) within (ofBits_value bits)

theorem units_zero : units 0 = 0 := by
  rw [units, significand, Nat.zero_sub, Nat.zero_mul]

/-- **The shortest decimal of a magnitude rounds to it.** -/
theorem toBits_shortest {bits : Nat} (within : bits ≤ infinityBits) :
    (shortest bits).toBits = bits := by
  unfold shortest
  by_cases zero : bits = 0
  · subst zero
    rw [if_pos rfl]
    exact nearest_of_units Nat.one_pos within (by rw [units_zero, Nat.zero_mul, Nat.zero_mul])
  · simp only [zero, if_false]
    exact toBits_coarsest bits _ (toBits_ofBits within) _

end Decimal
end Reckon
