/- Reckon.Number — the text of doubles

Every finite double is written with the fewest digits that read back as the
same double, positionally and without an exponent; a whole one has no point.
Zero keeps its sign.  Infinities and the not-a-number value have names, but no
text is ever read as one of them: reading answers only with finite doubles.
-/
import Reckon.Decimal.Shortest
import Reckon.Decimal.Text

namespace Reckon.Number
set_option autoImplicit false

/-- The value of a pattern's sign bit: two to the power of 63, which is also the
size of the least integer of 64 bits. -/
def signBit : Nat := 0x8000000000000000

/-- The double of a sign and a magnitude. -/
def ofParts (negative : Bool) (magnitude : Nat) : Float :=
  Float.ofBits (UInt64.ofNat (if negative then signBit + magnitude else magnitude))

/-- Whether the sign bit is set. -/
def isNegative (x : Float) : Bool := signBit ≤ x.toBits.toNat

/-- The pattern without its sign bit. -/
def magnitude (x : Float) : Nat := x.toBits.toNat % signBit

/-- The text of a magnitude that is not above infinity. -/
def magnitudeText (bits : Nat) : List Char :=
  if bits = Decimal.infinityBits then ['i', 'n', 'f']
  else (Decimal.shortest bits).text

/-- The text of a double. -/
def text (x : Float) : String :=
  if Decimal.infinityBits < magnitude x then "NaN"
  else if isNegative x then String.ofList ('-' :: magnitudeText (magnitude x))
  else String.ofList (magnitudeText (magnitude x))

/-- The double nearest to a signed decimal, unless it is infinite. -/
def nearest? (negative : Bool) (d : Decimal) : Option Float :=
  if d.toBits < Decimal.infinityBits then some (ofParts negative d.toBits) else none

/-- Reads a decimal, with or without a sign, as the nearest double. -/
def read? (source : String) : Option Float := do
  let (negative, unsigned) := Decimal.splitSign source.toList
  let d ← Decimal.read? unsigned
  nearest? negative d

/-- Reads an integer, with or without a sign, that fits 64 bits in two's
complement. -/
def readInteger? (source : String) : Option Int :=
  let (negative, digits) := Decimal.splitSign source.toList
  let size := Decimal.natOfDigits digits
  if digits.isEmpty || !digits.all Decimal.isDigit then none
  else if negative then (if size ≤ signBit then some (-size) else none)
  else (if size < signBit then some size else none)

/-- The double nearest to an integer of at most 64 bits.  Zero has no sign. -/
def ofInteger (n : Int) : Float :=
  ofParts (n < 0) (Decimal.nearest n.natAbs 1)

end Reckon.Number
