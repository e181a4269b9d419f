/- Reckon.Decimal.Text — positional text of decimals, and reading it back

A decimal is written positionally: its whole part, and, if it has places, a
point and exactly that many digits.  Reading is more liberal.  Digits may
stand on either side of the point or on both, and an exponent may follow.
An exponent stops growing once it has passed 65535, and one that moves the
point four hundred places beyond the digits is cut there: past that distance
a number is zero or infinite as a double either way.
-/
import Reckon.Decimal.Basic

namespace Reckon.Decimal
set_option autoImplicit false

/-- The ASCII digits; no other script's digits count. -/
def isDigit (c : Char) : Bool := '0' ≤ c && c ≤ '9'

/-- What a digit counts for. -/
def digitValue (c : Char) : Nat := c.toNat - '0'.toNat

/-- The number that a run of digits spells. -/
def natOfDigits (digits : List Char) : Nat :=
  digits.foldl (fun value c => 10 * value + digitValue c) 0

/-- The digits of a number, most significant first. -/
def digitsOfNat (n : Nat) : List Char := Nat.toDigits 10 n

/-- A decimal's positional text. -/
def text (d : Decimal) : List Char :=
  let unit := Nat.pow 10 d.places
  let whole := digitsOfNat (d.digits / unit)
  if d.places = 0 then whole
  else whole ++ '.' :: (digitsOfNat (d.digits % unit)).leftpad d.places '0'

/-- The letter that opens an exponent. -/
def isExponentMark (c : Char) : Bool := c == 'e' || c == 'E'

/-- A sign, as it stands before a number or an exponent. -/
def isSign (c : Char) : Bool := c == '+' || c == '-'

/-- Takes a sign off the front; the flag says that it was a minus. -/
def splitSign : List Char → Bool × List Char
  | '-' :: rest => (true, rest)
  | '+' :: rest => (false, rest)
  | rest => (false, rest)

/-- The size of an exponent.  Digits past the point where it exceeds 65535 are
not read. -/
def exponentSize (digits : List Char) : Nat :=
  digits.foldl (fun size c => if size < 65536 then 10 * size + digitValue c else size) 0

/-- A decimal times the signed power of ten that `tail` spells; `spelled` is
how many digits the decimal was written with. -/
def scaleBy? (d : Decimal) (spelled : Nat) (tail : List Char) : Option Decimal :=
  let (down, digits) := splitSign tail
  if digits.isEmpty || !digits.all isDigit then none
  else if down then some (d.scaleDown (min (exponentSize digits) (spelled + 400)))
  else some (d.scaleUp (min (exponentSize digits) (d.places + 400)))

/-- The digits after a point at the front, and what follows them; no digits if
no point stands there. -/
def splitFraction : List Char → List Char × List Char
  | '.' :: rest => rest.span isDigit
  | rest => ([], rest)

/-- Reads an unsigned decimal that takes up the whole text. -/
def read? (source : List Char) : Option Decimal :=
  let (whole, rest) := source.span isDigit
  let (fraction, tail) := splitFraction rest
  let digits := whole ++ fraction
  let d : Decimal := ⟨natOfDigits digits, fraction.length⟩
  if digits.isEmpty then none
  else match tail with
    | [] => some d
    | mark :: tail => if isExponentMark mark then d.scaleBy? digits.length tail else none

end Reckon.Decimal
