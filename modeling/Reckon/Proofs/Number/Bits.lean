/- Reckon.Proofs.Number.Bits — a double is its bit pattern

A double is a pattern of 64 bits in which every not-a-number value has one
canonical pattern.  The first bit is the sign and the others are the magnitude.
A double is finite exactly if its magnitude is below infinity (`isFinite_iff`),
and is put together from its two parts again (`ofParts_self`).

Two patterns are a zero, that of the positive one and that of the negative one,
and a double that is equal to zero has one of them (`eq_zero_iff`).
-/
import Mathlib
import Reckon.Number

namespace Reckon.Number
set_option autoImplicit false

open Float.Model (Format)
open Float.Model.UnpackedFloat

/-! ## Zeros -/

/-- The double is one of the two zeros. -/
def IsZero (x : Float) : Prop := x.toBits = 0 ∨ x.toBits = 0x8000000000000000

instance (x : Float) : Decidable (IsZero x) := inferInstanceAs (Decidable (_ ∨ _))

theorem eq_zero_iff (x : Float) : (x == 0.0) = true ↔ IsZero x := by
  have positive : (0.0 : Float).toBits = 0 := by decide
  have negative : (-0 : Float).toBits = 0x8000000000000000 := by decide
  rw [IsZero, ← positive, ← negative, Float.toBits_inj, Float.toBits_inj,
    Float.beq_iff_ne_nan_and_eq]
  constructor
  · rintro ⟨-, -, same | ⟨-, other⟩ | ⟨minus, -⟩⟩
    · exact .inl same
    · exact absurd other (by decide)
    · exact .inr minus
  · rintro (rfl | rfl)
    · exact ⟨by decide, by decide, .inl rfl⟩
    · exact ⟨by decide, by decide, .inr (.inr ⟨rfl, by decide⟩)⟩

/-! ## Sign and magnitude -/

theorem toNat_unpackExponent (bits : BitVec Format.binary64.numBits) :
    (unpackExponent bits).toNat = bits.toNat / 2 ^ 52 % 2 ^ 11 := by
  simp [unpackExponent, Nat.shiftRight_eq_div_pow]

/-- The patterns with an exponent field of ones are those from infinity on. -/
theorem unpackExponent_eq_ones_iff (bits : BitVec Format.binary64.numBits) :
    unpackExponent bits = -1#_ ↔ Decimal.infinityBits ≤ bits.toNat % signBit := by
  have ones : (-BitVec.ofNat Format.binary64.exponentBits 1).toNat = 2 ^ 11 - 1 := by decide
  rw [← BitVec.toNat_inj, toNat_unpackExponent, ones]
  unfold Decimal.infinityBits Decimal.leadingBit signBit
  omega

theorem isFinite_unpack_iff (bits : BitVec Format.binary64.numBits) :
    (unpack Format.binary64 bits).isFinite = true ↔ unpackExponent bits ≠ -1#_ := by
  unfold unpack
  dsimp only
  by_cases ones : unpackExponent bits = -1#_
  · rw [if_pos ones]
    split <;> exact iff_of_false Bool.false_ne_true (fun other => other ones)
  · rw [if_neg ones]
    split
    case isTrue => split <;> exact iff_of_true rfl ones
    case isFalse => exact iff_of_true rfl ones

/-- The finite doubles are those whose magnitude is below infinity. -/
theorem isFinite_iff (x : Float) : x.isFinite = true ↔ magnitude x < Decimal.infinityBits := by
  have model : x.isFinite = (unpack Format.binary64 x.toBits.toBitVec).isFinite := rfl
  rw [model, isFinite_unpack_iff, Ne, unpackExponent_eq_ones_iff, Nat.not_le]
  rfl

/-- The pattern of a sign and a magnitude. -/
def pattern (negative : Bool) (magnitude : Nat) : Nat :=
  if negative then signBit + magnitude else magnitude

theorem pattern_lt {negative : Bool} {size : Nat} (finite : size < Decimal.infinityBits) :
    pattern negative size < 2 ^ 64 := by
  unfold Decimal.infinityBits Decimal.leadingBit at finite
  unfold pattern signBit
  split <;> omega

theorem pattern_mod {negative : Bool} {size : Nat} (finite : size < Decimal.infinityBits) :
    pattern negative size % signBit = size := by
  unfold Decimal.infinityBits Decimal.leadingBit at finite
  unfold pattern signBit
  split <;> omega

/-- No pattern below infinity is changed by becoming a double. -/
theorem toNat_toBits_ofParts {negative : Bool} {size : Nat}
    (finite : size < Decimal.infinityBits) :
    (ofParts negative size).toBits.toNat = pattern negative size := by
  have fits : (UInt64.ofNat (pattern negative size)).toNat = pattern negative size :=
    UInt64.toNat_ofNat_of_lt' (pattern_lt finite)
  have valid : Format.binary64.Valid (UInt64.ofNat (pattern negative size)).toBitVec := by
    refine ⟨fun ones => ?_⟩
    rw [unpackExponent_eq_ones_iff, UInt64.toNat_toBitVec, fits, pattern_mod finite] at ones
    exact absurd finite (Nat.not_lt.mpr ones)
  have packed : (ofParts negative size).toBits = UInt64.ofNat (pattern negative size) :=
    UInt64.toBitVec_inj.mp (pack_unpack_of_valid valid)
  rw [packed, fits]

theorem magnitude_ofParts {negative : Bool} {size : Nat} (finite : size < Decimal.infinityBits) :
    magnitude (ofParts negative size) = size := by
  rw [magnitude, toNat_toBits_ofParts finite, pattern_mod finite]

theorem isFinite_ofParts {negative : Bool} {size : Nat} (finite : size < Decimal.infinityBits) :
    (ofParts negative size).isFinite = true := by
  rw [isFinite_iff, magnitude_ofParts finite]
  exact finite

/-- A double is put together again from its sign and its magnitude. -/
theorem ofParts_self (x : Float) : ofParts (isNegative x) (magnitude x) = x := by
  have bound : x.toBits.toNat < 2 ^ 64 := x.toBits.toNat_lt
  have whole : pattern (isNegative x) (magnitude x) = x.toBits.toNat := by
    unfold pattern isNegative magnitude
    split
    case isTrue set =>
      have high : signBit ≤ x.toBits.toNat := of_decide_eq_true set
      unfold signBit at *
      omega
    case isFalse clear =>
      have low : ¬signBit ≤ x.toBits.toNat := fun high => clear (decide_eq_true high)
      exact Nat.mod_eq_of_lt (Nat.not_le.mp low)
  show Float.ofBits (UInt64.ofNat (pattern (isNegative x) (magnitude x))) = x
  rw [whole, UInt64.ofNat_toNat, Float.ofBits_toBits]

end Reckon.Number
