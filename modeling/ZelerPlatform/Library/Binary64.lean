import ZelerPlatform.Library.Decimal
import ZelerPlatform.Library.Mongo.Value

/-!
# The double nearest to a number

A double other than a NaN is a sign and a magnitude, and the magnitudes are in the order of the
numbers they stand for: the bits of a magnitude are its mantissa beyond those of the last place.
What is too large for a double is an infinity.
-/

namespace Binary64

/-- The exponent of the last bit of the mantissa. -/
def lastBit (x : ℚ) : ℤ := max (Int.log 2 x - 52) (-1074)

/-- The bits of infinity. -/
def infinityBits : ℕ := 2047 * 2 ^ 52

/-- The bits of the double nearest to a number that is not negative. -/
def magnitudeBits (x : ℚ) : ℕ :=
  if x = 0 then 0
  else
    min infinityBits
      ((lastBit x + 1074).toNat * 2 ^ 52 + (Decimal.roundHalfEven (x / 2 ^ lastBit x)).toNat)

/-- `float(value)`. -/
def toDouble (x : ℚ) : BitVec 64 :=
  .ofNat 64 ((if x < 0 then 2 ^ 63 else 0) + magnitudeBits |x|)

example : toDouble (1 / 10) = 0x3FB999999999999A#64 := by decide +kernel

theorem magnitudeBits_le (x : ℚ) : magnitudeBits x ≤ infinityBits := by
  rw [magnitudeBits]
  split
  case isTrue => exact Nat.zero_le _
  case isFalse => exact min_le_left _ _

/-- The double of a number is a number. -/
theorem toDouble_number (x : ℚ) : Mongo.Value.ofBits (toDouble x) ≠ .nan := by
  have hle := magnitudeBits_le |x|
  obtain ⟨magnitude, hmagnitude⟩ : ∃ magnitude, magnitude = magnitudeBits |x| := ⟨_, rfl⟩
  obtain ⟨sign, hsign⟩ : ∃ sign, sign = if x < 0 then 2 ^ 63 else 0 := ⟨_, rfl⟩
  have hcases : sign = 0 ∨ sign = 2 ^ 63 := by
    rw [hsign]
    split
    case isTrue => exact .inr rfl
    case isFalse => exact .inl rfl
  have hbits : (toDouble x).toNat = sign + magnitude := by
    rw [toDouble, ← hmagnitude, ← hsign, BitVec.toNat_ofNat]
    apply Nat.mod_eq_of_lt
    rw [infinityBits, ← hmagnitude] at hle
    omega
  have hmantissa : sign + magnitude < 2 ^ 64 ∧ ((sign + magnitude) / 2 ^ 52 % 2 ^ 11 = 2047 →
      (sign + magnitude) % 2 ^ 52 = 0) := by
    rw [infinityBits, ← hmagnitude] at hle
    omega
  rw [Mongo.Value.ofBits, hbits]
  dsimp only
  split
  case isTrue hexponent =>
      rw [if_neg (not_not.mpr (hmantissa.2 hexponent))]
      split <;> exact fun h => by cases h
  case isFalse => exact fun h => by cases h

end Binary64
