/- Reckon.Proofs.Number.Text — a double is read back from its text

The text of a finite double is a sign and the shortest decimal that rounds to
the magnitude, so reading finds the same double, the sign of a zero included
(`read?_text`).

Only finite doubles are ever read: a decimal that rounds to infinity is
refused (`isFinite_of_read?`), and an integer of 64 bits does not come near it
(`isFinite_ofInteger`).
-/
import Mathlib
import Reckon.Proofs.Decimal.RoundTrip
import Reckon.Proofs.Number.Bits

namespace Reckon.Number
set_option autoImplicit false

/-! ## The text, read -/

/-- A finite double's text is the shortest decimal of its magnitude, behind a minus if the
sign bit is set. -/
theorem toList_text {x : Float} (finite : x.isFinite = true) :
    (text x).toList = if isNegative x then '-' :: (Decimal.shortest (magnitude x)).text
      else (Decimal.shortest (magnitude x)).text := by
  have below : magnitude x < Decimal.infinityBits := (isFinite_iff x).mp finite
  rw [text, if_neg (Nat.not_lt.mpr (Nat.le_of_lt below)), magnitudeText,
    if_neg (Nat.ne_of_lt below)]
  split <;> rw [String.toList_ofList]

theorem isSign_of_isDigit {c : Char} (digit : Decimal.isDigit c = true) :
    Decimal.isSign c = false := by
  rw [Bool.eq_false_iff]
  intro sign
  have signs : c = '+' ∨ c = '-' := by simpa [Decimal.isSign] using sign
  rcases signs with rfl | rfl <;> exact absurd digit (by decide)

theorem splitSign_of_unsigned {c : Char} {rest : List Char} (unsigned : Decimal.isSign c = false) :
    Decimal.splitSign (c :: rest) = (false, c :: rest) := by
  unfold Decimal.splitSign
  split
  case h_1 found =>
    cases found
    cases unsigned
  case h_2 found =>
    cases found
    cases unsigned
  case h_3 => rfl

theorem splitSign_text {x : Float} (finite : x.isFinite = true) :
    Decimal.splitSign (text x).toList = (isNegative x, (Decimal.shortest (magnitude x)).text) := by
  rw [toList_text finite]
  generalize Decimal.shortest (magnitude x) = d
  cases isNegative x with
  | true => rfl
  | false =>
    obtain ⟨c, rest, opens, digit⟩ := d.text_opens
    rw [if_neg Bool.false_ne_true, opens, splitSign_of_unsigned (isSign_of_isDigit digit)]

/-- A finite double's text is made of digits, a point and a minus. -/
theorem mem_text {x : Float} (finite : x.isFinite = true) {c : Char}
    (member : c ∈ (text x).toList) : Decimal.isDigit c = true ∨ c = '.' ∨ c = '-' := by
  rw [toList_text finite] at member
  split at member
  case isTrue =>
    rcases List.mem_cons.mp member with minus | inside
    · exact .inr (.inr minus)
    · exact (Decimal.isDigit_or_point_of_mem_text inside).imp_right .inl
  case isFalse => exact (Decimal.isDigit_or_point_of_mem_text member).imp_right .inl

/-- **A finite double is read back from its text.** -/
theorem read?_text {x : Float} (finite : x.isFinite = true) : read? (text x) = some x := by
  have below : magnitude x < Decimal.infinityBits := (isFinite_iff x).mp finite
  have rounds : (Decimal.shortest (magnitude x)).toBits = magnitude x :=
    Decimal.toBits_shortest (Nat.le_of_lt below)
  rw [read?, splitSign_text finite]
  dsimp only
  rw [Decimal.read?_text, Option.bind_eq_bind, Option.bind_some, nearest?, rounds, if_pos below,
    ofParts_self]

/-! ## What is read is finite -/

theorem isFinite_of_nearest? {negative : Bool} {d : Decimal} {x : Float}
    (found : nearest? negative d = some x) : x.isFinite = true := by
  unfold nearest? at found
  split at found
  case isTrue below =>
    cases found
    exact isFinite_ofParts below
  case isFalse => cases found

theorem isFinite_of_read? {source : String} {x : Float} (found : read? source = some x) :
    x.isFinite = true := by
  rw [read?] at found
  obtain ⟨d, -, nearest⟩ := Option.bind_eq_some_iff.mp found
  exact isFinite_of_nearest? nearest

/-- An integer that is read has at most 64 bits. -/
theorem natAbs_le_of_readInteger? {source : String} {n : Int}
    (found : readInteger? source = some n) : n.natAbs ≤ signBit := by
  unfold readInteger? at found
  generalize Decimal.splitSign source.toList = parts at found
  obtain ⟨negative, digits⟩ := parts
  dsimp only at found
  generalize Decimal.natOfDigits digits = size at found
  split at found
  case isTrue => cases found
  case isFalse => split at found <;> split at found <;> cases found <;> omega

/-- A whole number of 64 bits is rounded far below infinity. -/
theorem nearest_lt_infinityBits {n : Nat} (fits : n ≤ signBit) :
    Decimal.nearest n 1 < Decimal.infinityBits := by
  have bits (places : Nat) : (n * Nat.pow 2 places / 1).log2 < 64 + places := by
    rw [Nat.div_one]
    by_cases zero : n * Nat.pow 2 places = 0
    · rw [zero, Nat.log2_zero]
      omega
    · rw [Nat.log2_lt zero, Nat.pow_add 2 64 places]
      exact Nat.mul_lt_mul_of_pos_right (Nat.lt_of_le_of_lt fits (by decide))
        (Nat.pow_pos (by decide))
  refine Nat.lt_of_le_of_lt (Decimal.nearest_le n 1) ?_
  have low := bits Decimal.binaryPlaces
  -- The power of two has more than a thousand bits and is not to be computed.
  generalize (n * Nat.pow 2 Decimal.binaryPlaces / 1).log2 = log at low
  unfold Decimal.binaryPlaces at low
  exact Nat.mul_lt_mul_of_pos_right (by omega) (by decide)

/-- An integer of 64 bits stays far below infinity. -/
theorem isFinite_ofInteger {n : Int} (fits : n.natAbs ≤ signBit) :
    (ofInteger n).isFinite = true :=
  isFinite_ofParts (nearest_lt_infinityBits fits)

end Reckon.Number
