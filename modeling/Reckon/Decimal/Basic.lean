/- Reckon.Decimal.Basic — nonnegative decimals

A decimal is a whole number of units of some power of ten below one, or of
one itself.  Nothing is normalised: `⟨10, 1⟩` and `⟨1, 0⟩` are two spellings
of one number, as `1.0` and `1` are.  Multiplying by a power of ten moves the
point and writes zeros only where the point has run out of places.
-/

namespace Reckon
set_option autoImplicit false

/-- The nonnegative number `digits / 10 ^ places`. -/
structure Decimal where
  digits : Nat
  places : Nat
  deriving DecidableEq, Repr

namespace Decimal

/-- The number times `10 ^ e`. -/
def scaleUp (d : Decimal) (e : Nat) : Decimal :=
  ⟨d.digits * Nat.pow 10 (e - d.places), d.places - e⟩

/-- The number divided by `10 ^ e`. -/
def scaleDown (d : Decimal) (e : Nat) : Decimal :=
  ⟨d.digits, d.places + e⟩

/-- Moving the point up is multiplication: both sides are the number times
`10 ^ e`, over the denominators that the two spellings have. -/
theorem scaleUp_value (d : Decimal) (e : Nat) :
    (d.scaleUp e).digits * Nat.pow 10 d.places =
      d.digits * Nat.pow 10 e * Nat.pow 10 (d.scaleUp e).places := by
  simp only [scaleUp, Nat.pow_eq, Nat.mul_assoc, ← Nat.pow_add]
  congr 2
  omega

end Decimal
end Reckon
