/- Reckon.Decimal.Nearest — the double nearest to a ratio

A double's magnitude is the low 63 bits of its pattern, read as one number.
In units of the least positive double the magnitude `bits` stands for
`units bits`: a fraction of 52 bits below `2 ^ 52`, and above it a
significand of 53 bits shifted left by the exponent field less one.

`nearest num den` rounds `num / den` to such a pattern, a half going to the
even neighbour.  The significand is the ratio, in units, with its surplus low
bits rounded away; adding it to the exponent field already carries into the
next binade when the rounding overflows it, and into the pattern of infinity
when the last binade overflows, so neither case is treated apart.
-/
import Reckon.Decimal.Basic

namespace Reckon.Decimal
set_option autoImplicit false

/-- The least positive double is one over two to this power, and every finite
double is a whole number of those. -/
def binaryPlaces : Nat := 1074

/-- `num / den` as a whole number, a half going to the even neighbour. -/
def roundHalfEven (num den : Nat) : Nat :=
  let low := num / den
  let twice := 2 * (num % den)
  if twice < den then low
  else if den < twice then low + 1
  else low + low % 2

/-- The value of the leading bit of a significand, two to the power of 52.
Patterns leave it out. -/
def leadingBit : Nat := 0x10000000000000

/-- The pattern of positive infinity; the patterns of finite magnitudes lie
below it. -/
def infinityBits : Nat := 0x7ff * leadingBit

/-- The pattern of the double nearest to `num / den`. -/
def nearest (num den : Nat) : Nat :=
  let scaled := num * Nat.pow 2 binaryPlaces
  let surplus := (scaled / den).log2 - 52
  min infinityBits (surplus * leadingBit + roundHalfEven scaled (den * Nat.pow 2 surplus))

/-- The bits by which a magnitude's significand is shifted left. -/
def shift (bits : Nat) : Nat := bits / leadingBit - 1

/-- A magnitude's significand, with the leading bit that the pattern leaves
out. -/
def significand (bits : Nat) : Nat := bits - shift bits * leadingBit

/-- A finite magnitude in units of the least positive double. -/
def units (bits : Nat) : Nat := significand bits * Nat.pow 2 (shift bits)

/-- A finite magnitude, exactly.  What the shift leaves of the power of two in
the denominator becomes the same power of ten, once the significand is
multiplied by that power of five. -/
def ofBits (bits : Nat) : Decimal :=
  let places := binaryPlaces - shift bits
  ⟨significand bits * Nat.pow 2 (shift bits - binaryPlaces) * Nat.pow 5 places, places⟩

/-- The pattern of the double nearest to a decimal. -/
def toBits (d : Decimal) : Nat := nearest d.digits (Nat.pow 10 d.places)

/-- The exact decimal of a magnitude has the magnitude's value. -/
theorem ofBits_value (bits : Nat) :
    (ofBits bits).digits * Nat.pow 2 binaryPlaces =
      units bits * Nat.pow 10 (ofBits bits).places := by
  simp only [ofBits, units, Nat.pow_eq]
  generalize binaryPlaces = p
  generalize shift bits = s
  have ten : (10 : Nat) ^ (p - s) = 5 ^ (p - s) * 2 ^ (p - s) := Nat.mul_pow 5 2 (p - s)
  have twos : 2 ^ (s - p) * 2 ^ p = 2 ^ s * 2 ^ (p - s) := by
    rw [← Nat.pow_add, ← Nat.pow_add]
    congr 1
    omega
  calc significand bits * 2 ^ (s - p) * 5 ^ (p - s) * 2 ^ p
      = significand bits * 5 ^ (p - s) * (2 ^ (s - p) * 2 ^ p) := by ac_rfl
    _ = significand bits * 5 ^ (p - s) * (2 ^ s * 2 ^ (p - s)) := by rw [twos]
    _ = significand bits * 2 ^ s * 10 ^ (p - s) := by rw [ten]; ac_rfl

end Reckon.Decimal
