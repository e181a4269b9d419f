/- Reckon.Decimal.Shortest — the fewest digits that read back

Of all decimals that round to a given double, the shortest is a multiple of
the largest power of ten that has such a multiple at all.  The search starts
from the exact value and a power of ten above it, and tries the two multiples
around the value on each grid, from the coarsest down.  On the first grid
that is hit, the nearer of two hits is taken, and of two equally near ones the
larger.  The finest grid is the value itself, so the search always ends with
a decimal that reads back.
-/
import Reckon.Decimal.Nearest

namespace Reckon.Decimal
set_option autoImplicit false

/-- The grid of multiples of `10 ^ e` units of `exact`, searched for a
neighbour of `exact` that rounds to `bits`; then the finer ones. -/
def coarsest (bits : Nat) (exact : Decimal) : Nat → Decimal
  | 0 => exact
  | e + 1 =>
    let step := Nat.pow 10 (e + 1)
    let count := exact.digits / step
    let below := scaleUp ⟨count, exact.places⟩ (e + 1)
    let above := scaleUp ⟨count + 1, exact.places⟩ (e + 1)
    if below.toBits = bits ∧ (2 * (exact.digits % step) < step ∨ above.toBits ≠ bits) then below
    else if above.toBits = bits then above
    else coarsest bits exact e

/-- The shortest decimal that rounds to the magnitude `bits`.  The search
starts at a power of ten above the value: `30103 / 100000` is just above the
common logarithm of two.  Zero lies on every grid and is written as itself. -/
def shortest (bits : Nat) : Decimal :=
  let exact := ofBits bits
  if bits = 0 then ⟨0, 0⟩
  else coarsest bits exact (exact.digits.log2 * 30103 / 100000 + 2)

/-- Whatever grid the search stops on, the result reads back as soon as the
exact value does. -/
theorem toBits_coarsest (bits : Nat) (exact : Decimal) (reads : exact.toBits = bits) (e : Nat) :
    (coarsest bits exact e).toBits = bits := by
  induction e with
  | zero => exact reads
  | succ e ih =>
      simp only [coarsest]
      split
      case isTrue below => exact below.1
      case isFalse =>
        split
        case isTrue above => exact above
        case isFalse => exact ih

end Reckon.Decimal
