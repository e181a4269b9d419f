/- Reckon.Proofs.Decimal.Rounding — no other double is nearer

Magnitudes are in the order of their patterns, and two neighbours are one unit of the place of
their last bit apart (`units_grid`, `units_strictMono`).  Rounding finds the two neighbours that a
ratio lies between and takes the nearer of them, or the even one if they are equally near; every
other magnitude lies further off, on one side or the other (`isNearest_nearest`).

A ratio is rounded for its value and not for its terms, so it may be extended by any factor
(`nearest_mul`).
-/
import Reckon.Proofs.Decimal.RoundTrip

namespace Reckon.Decimal
set_option autoImplicit false

/-! ## The order of magnitudes -/

/-- The patterns of one binade, its upper end included, in units of the place of its last bit. -/
theorem units_grid {s k : Nat} (least : s = 0 ∨ leadingBit ≤ k) (most : k ≤ 2 * leadingBit) :
    units (s * leadingBit + k) = k * 2 ^ s := by
  by_cases top : k = 2 * leadingBit
  · have shifted : shift (s * leadingBit + k) = s + 1 := by
      unfold shift leadingBit at *
      omega
    have rest : significand (s * leadingBit + k) = leadingBit := by
      unfold significand
      rw [shifted]
      unfold leadingBit at *
      omega
    rw [units, shifted, rest, top, Nat.pow_eq, Nat.pow_succ]
    ring
  · have shifted : shift (s * leadingBit + k) = s := by
      unfold shift leadingBit at *
      omega
    have rest : significand (s * leadingBit + k) = k := by
      unfold significand
      rw [shifted]
      omega
    rw [units, shifted, rest, Nat.pow_eq]

theorem significand_lt (bits : Nat) : significand bits < 2 * leadingBit := by
  unfold significand shift leadingBit
  omega

/-- Only the lowest binade has significands without the leading bit. -/
theorem leadingBit_le_significand (bits : Nat) :
    shift bits = 0 ∨ leadingBit ≤ significand bits := by
  unfold significand shift leadingBit
  omega

/-- A greater pattern is a greater magnitude. -/
theorem units_strictMono : StrictMono units := by
  apply strictMono_nat_of_lt_succ
  intro bits
  have most := significand_lt bits
  have least := leadingBit_le_significand bits
  have here := units_grid least (Nat.le_of_lt most)
  have next := units_grid (s := shift bits) (k := significand bits + 1) (by omega) most
  rw [← Nat.add_assoc] at next
  rw [shift_add_significand] at here next
  rw [here, next]
  exact Nat.mul_lt_mul_of_pos_right (Nat.lt_succ_self _) (Nat.pow_pos (by decide))

/-! ## Rounding -/

/-- How far a magnitude is from a ratio, in units of the least positive double over the ratio's
denominator.  One of the two differences is zero. -/
def error (num den bits : Nat) : Nat :=
  (units bits * den - num * Nat.pow 2 binaryPlaces) +
    (num * Nat.pow 2 binaryPlaces - units bits * den)

/-- The finite magnitude is as near to the ratio as any other, and if another is as near as it is,
its own pattern is the even one. -/
structure IsNearest (num den bits : Nat) : Prop where
  finite : bits < infinityBits
  least : ∀ other < infinityBits, error num den bits ≤ error num den other
  even : ∀ other < infinityBits, other ≠ bits → error num den other = error num den bits →
    bits % 2 = 0

section Neighbours
variable {num den bits other : Nat}

theorem units_mul_lt (positive : 0 < den) (lt : bits < other) :
    units bits * den < units other * den :=
  Nat.mul_lt_mul_of_pos_right (units_strictMono lt) positive

/-- Below a magnitude that is not above the ratio, all others are farther off. -/
theorem error_lt_of_lt (positive : 0 < den)
    (below : units bits * den ≤ num * Nat.pow 2 binaryPlaces) (lt : other < bits) :
    error num den bits < error num den other := by
  have order := units_mul_lt positive lt
  unfold error
  omega

/-- Above a magnitude that is not below the ratio, all others are farther off. -/
theorem error_lt_of_gt (positive : 0 < den)
    (above : num * Nat.pow 2 binaryPlaces ≤ units bits * den) (lt : bits < other) :
    error num den bits < error num den other := by
  have order := units_mul_lt positive lt
  unfold error
  omega

/-- A magnitude is nearest if one other is no nearer and all the rest are farther off. -/
theorem isNearest_of_farther {neighbour : Nat} (finite : bits < infinityBits)
    (nearer : error num den bits ≤ error num den neighbour)
    (tie : error num den neighbour = error num den bits → bits % 2 = 0)
    (farther : ∀ other, other ≠ bits → other ≠ neighbour →
      error num den bits < error num den other) : IsNearest num den bits where
  finite := finite
  least := by
    intro other _
    by_cases same : other = bits
    · rw [same]
    by_cases beside : other = neighbour
    · rw [beside]
      exact nearer
    · exact Nat.le_of_lt (farther other same beside)
  even := by
    intro other _ differs same
    by_cases beside : other = neighbour
    · rw [beside] at same
      exact tie same
    · exact absurd same (Nat.ne_of_gt (farther other differs beside))

variable (positive : 0 < den) (below : units bits * den ≤ num * Nat.pow 2 binaryPlaces)
  (above : num * Nat.pow 2 binaryPlaces ≤ units (bits + 1) * den)
include positive below above

/-- The lower one of two neighbours around a ratio, where the upper one is no nearer. -/
theorem isNearest_lower (finite : bits < infinityBits)
    (nearer : error num den bits ≤ error num den (bits + 1))
    (tie : error num den (bits + 1) = error num den bits → bits % 2 = 0) :
    IsNearest num den bits := by
  apply isNearest_of_farther finite nearer tie
  intro other differs beside
  rcases Nat.lt_or_gt_of_ne differs with lower | higher
  · exact error_lt_of_lt positive below lower
  · exact Nat.lt_of_le_of_lt nearer (error_lt_of_gt positive above (by omega))

/-- The upper one of two neighbours around a ratio, where the lower one is no nearer. -/
theorem isNearest_upper (finite : bits + 1 < infinityBits)
    (nearer : error num den (bits + 1) ≤ error num den bits)
    (tie : error num den bits = error num den (bits + 1) → (bits + 1) % 2 = 0) :
    IsNearest num den (bits + 1) := by
  apply isNearest_of_farther finite nearer tie
  intro other differs beside
  rcases Nat.lt_or_gt_of_ne beside with lower | higher
  · exact Nat.lt_of_le_of_lt nearer (error_lt_of_lt positive below lower)
  · exact error_lt_of_gt positive above (by omega)

end Neighbours

/-- Of the two whole numbers around a ratio, the nearer one is taken, or the even one. -/
theorem roundHalfEven_cases (num den : Nat) :
    (roundHalfEven num den = num / den ∧ 2 * (num % den) ≤ den ∧
        (2 * (num % den) = den → num / den % 2 = 0)) ∨
      (roundHalfEven num den = num / den + 1 ∧ den ≤ 2 * (num % den) ∧
        (2 * (num % den) = den → (num / den + 1) % 2 = 0)) := by
  unfold roundHalfEven
  dsimp only
  generalize num / den = low, num % den = rest
  split
  · left
    omega
  · split
    · right
      omega
    · rcases Nat.mod_two_eq_zero_or_one low with even | odd
      · left
        omega
      · right
        omega

/-- The bits that are left of a ratio when its surplus is cut off fill a significand, unless there
is no surplus. -/
theorem scaled_div_bounds (scaled : Nat) {den surplus : Nat}
    (bits : (scaled / den).log2 - 52 = surplus) :
    scaled / (den * 2 ^ surplus) < 2 * leadingBit ∧
      (surplus = 0 ∨ leadingBit ≤ scaled / (den * 2 ^ surplus)) := by
  rw [← Nat.div_div_eq_div_mul]
  generalize scaled / den = whole at bits
  have positive : 0 < 2 ^ surplus := Nat.pow_pos (by decide)
  constructor
  · refine (Nat.div_lt_iff_lt_mul positive).mpr ?_
    calc whole < 2 ^ (whole.log2 + 1) := Nat.lt_log2_self
      _ ≤ 2 ^ (53 + surplus) := Nat.pow_le_pow_right (by decide) (by omega)
      _ = 2 * leadingBit * 2 ^ surplus := Nat.pow_add 2 53 surplus
  · by_cases none : surplus = 0
    · exact .inl none
    · right
      refine (Nat.le_div_iff_mul_le positive).mpr ?_
      have some : whole ≠ 0 := by
        rintro rfl
        rw [Nat.log2_zero] at bits
        omega
      calc leadingBit * 2 ^ surplus = 2 ^ (52 + surplus) := (Nat.pow_add 2 52 surplus).symm
        _ = 2 ^ whole.log2 := by
            congr 1
            omega
        _ ≤ whole := Nat.log2_self_le some

/-- Below infinity, rounding is rounding to a multiple of the place of the last bit. -/
theorem nearest_eq_of_finite {num den : Nat} (finite : nearest num den < infinityBits) :
    ∃ surplus, (num * Nat.pow 2 binaryPlaces / den).log2 - 52 = surplus ∧
      nearest num den = surplus * leadingBit +
        roundHalfEven (num * Nat.pow 2 binaryPlaces) (den * 2 ^ surplus) := by
  refine ⟨_, rfl, ?_⟩
  have rounded : nearest num den = min infinityBits _ := rfl
  rw [min_def] at rounded
  split at rounded
  · exact absurd rounded (Nat.ne_of_lt finite)
  · exact rounded

/-- **Rounding to nearest, ties to even.**  No finite magnitude is nearer to a ratio than the one
that it is rounded to. -/
theorem isNearest_nearest {num den : Nat} (positive : 0 < den)
    (finite : nearest num den < infinityBits) : IsNearest num den (nearest num den) := by
  obtain ⟨surplus, surplus_eq, rounded⟩ := nearest_eq_of_finite finite
  rw [rounded] at finite ⊢
  obtain ⟨scaled, scaled_eq⟩ : ∃ scaled, scaled = num * Nat.pow 2 binaryPlaces := ⟨_, rfl⟩
  obtain ⟨step, step_eq⟩ : ∃ step, step = den * 2 ^ surplus := ⟨_, rfl⟩
  obtain ⟨most, least⟩ := scaled_div_bounds _ surplus_eq
  rw [← scaled_eq, ← step_eq] at finite most least ⊢
  -- The neighbours are `low` and `low + 1` steps up, and the ratio is `excess` beyond the lower.
  have steps : 0 < step := step_eq ▸ Nat.mul_pos positive (Nat.pow_pos (by decide))
  have inside := Nat.div_add_mod scaled step
  have rest := Nat.mod_lt scaled steps
  have halves := roundHalfEven_cases scaled step
  generalize scaled / step = low, scaled % step = excess at *
  have on_grid (k : Nat) (least : surplus = 0 ∨ leadingBit ≤ k) (most : k ≤ 2 * leadingBit) :
      units (surplus * leadingBit + k) * den = step * k := by
    rw [units_grid least most, step_eq]
    ring
  have lower := on_grid low least (Nat.le_of_lt most)
  have upper := on_grid (low + 1) (by omega) most
  rw [Nat.mul_add, Nat.mul_one, ← Nat.add_assoc] at upper
  have error_lower : error num den (surplus * leadingBit + low) = excess := by
    rw [error, lower, ← scaled_eq]
    omega
  have error_upper : error num den (surplus * leadingBit + low + 1) = step - excess := by
    rw [error, upper, ← scaled_eq]
    omega
  have parity : surplus * leadingBit % 2 = 0 := by
    unfold leadingBit
    omega
  rcases halves with ⟨down, near, even⟩ | ⟨up, near, even⟩
  · rw [down] at finite ⊢
    apply isNearest_lower positive (by omega) (by omega) finite
    · omega
    · intro tie
      have half := even (by omega)
      omega
  · rw [up, ← Nat.add_assoc] at finite ⊢
    apply isNearest_upper positive (by omega) (by omega) finite
    · omega
    · intro tie
      have half := even (by omega)
      omega

/-! ## Ratios of one value -/

theorem roundHalfEven_mul_mul {factor : Nat} (positive : 0 < factor) (num den : Nat) :
    roundHalfEven (factor * num) (factor * den) = roundHalfEven num den := by
  have twice : 2 * (factor * (num % den)) = factor * (2 * (num % den)) := by ring
  unfold roundHalfEven
  simp only [Nat.mul_div_mul_left _ _ positive, Nat.mul_mod_mul_left, twice,
    Nat.mul_lt_mul_left positive]

/-- Extending a ratio does not change what it is rounded to. -/
theorem nearest_mul {factor : Nat} (positive : 0 < factor) (num den : Nat) :
    nearest (factor * num) (factor * den) = nearest num den := by
  unfold nearest
  simp only [Nat.mul_assoc, Nat.mul_div_mul_left _ _ positive, roundHalfEven_mul_mul positive]

/-- Zeros at the end of the digits count for nothing, behind the point. -/
theorem toBits_mul_pow (n places : Nat) : toBits ⟨n * 10 ^ places, places⟩ = nearest n 1 := by
  rw [← nearest_mul (Nat.pow_pos (n := places) (Nat.succ_pos 9)) n 1, Nat.mul_comm, Nat.mul_one]
  rfl

end Reckon.Decimal
