import ScopedLisp.Number

/-!
# ScopedLisp.Proofs.Number.Binary64

Doubles by their bits.  A finite double with a leading bit keeps the bits it is made of (`toBits_ofBits`).  Integers
other than zero are rounded to such doubles, so none of them is a zero as a double (`view_ofInt`).

The bits are a sign, an exponent and a mantissa in a row.  Lean's model of its doubles unpacks them into a sign, a
significand and a power of two, and packs these again.
-/

namespace ScopedLisp.Binary64

/-! ## Widths

Fifty-two bits of mantissa, eleven of exponent and the sign make sixty-four. -/

theorem power_mantissa : power 2 52 = 4503599627370496 := rfl

theorem power_exponent : power 2 11 = 2048 := rfl

theorem power_sign : power 2 63 = 9223372036854775808 := rfl

theorem power_word : power 2 64 = 18446744073709551616 := rfl

/-! ## Packing and unpacking -/

section Packing

open Float.Model UnpackedFloat

variable (b : BitVec Format.binary64.numBits)

/-- The exponent is between the mantissa and the sign. -/
theorem toNat_unpackExponent : (unpackExponent b).toNat = b.toNat / power 2 52 % power 2 11 := by
  rw [unpackExponent, BitVec.toNat_cast, BitVec.extractLsb_toNat, Nat.shiftRight_eq_div_pow]
  rfl

/-- The mantissa is at the end. -/
theorem toNat_unpackMantissa : (unpackMantissa b).toNat = b.toNat % power 2 52 := by
  rw [unpackMantissa, BitVec.toNat_cast, BitVec.extractLsb_toNat]
  rfl

/-- The sign is in front. -/
theorem toNat_unpackSign : (unpackSign b).toNat = b.toNat / power 2 63 := by
  have small : b.toNat < 2 ^ 64 := b.isLt
  have first : (unpackSign b).toNat = b.toNat >>> 63 % 2 := rfl
  rw [first, Nat.shiftRight_eq_div_pow, power_sign]
  omega

/-- A double is made of its sign, its exponent and its mantissa. -/
theorem packComponents_unpacked :
    packComponents .binary64 (.ofBitVec (unpackSign b)) (unpackExponent b) (unpackMantissa b) = b := by
  have sign : (Sign.ofBitVec (unpackSign b)).toBitVec = unpackSign b := by
    generalize unpackSign b = s
    revert s
    decide
  have mantissa := (unpackMantissa b).isLt
  have exponent := (unpackExponent b).isLt
  have small : b.toNat < 2 ^ 64 := b.isLt
  apply BitVec.eq_of_toNat_eq
  rw [packComponents, sign, BitVec.toNat_append, BitVec.toNat_append, ← Nat.shiftLeft_add_eq_or_of_lt exponent,
    ← Nat.shiftLeft_add_eq_or_of_lt mantissa, Nat.shiftLeft_eq, Nat.shiftLeft_eq, toNat_unpackSign,
    toNat_unpackExponent, toNat_unpackMantissa, power_sign, power_mantissa, power_exponent]
  simp only [Format.binary64]
  omega

/-- A double with a leading bit is packed as it was unpacked. -/
theorem pack_unpack (normal : unpackExponent b ≠ 0#_) (finite : unpackExponent b ≠ -1#_) :
    (UnpackedFloat.unpack .binary64 b).pack .binary64 = b := by
  have small : (unpackMantissa b).toNat < 2 ^ 52 := (unpackMantissa b).isLt
  have below : ¬2 ^ 11 ≤ (unpackExponent b).toNat + 1 := by
    have ne : (unpackExponent b).toNat ≠ 2 ^ 11 - 1 := fun eq => finite (BitVec.eq_of_toNat_eq eq)
    have lt : (unpackExponent b).toNat < 2 ^ 11 := (unpackExponent b).isLt
    omega
  have leading : (1#1 ++ unpackMantissa b).toNat = 2 ^ 52 + (unpackMantissa b).toNat := by
    rw [BitVec.toNat_append, ← Nat.shiftLeft_add_eq_or_of_lt (unpackMantissa b).isLt, Nat.shiftLeft_eq]
    rfl
  have log : (2 ^ 52 + (unpackMantissa b).toNat).log2 = 52 := by
    rw [Nat.log2_eq_iff (by omega)]
    omega
  have biased (bias : Int) :
      ((unpackExponent b).toNat - (bias + (52 : Nat)) + bias + (52 : Nat)).toNat = (unpackExponent b).toNat := by
    omega
  have exponent : BitVec.ofNat 11 (unpackExponent b).toNat = unpackExponent b := by
    rw [BitVec.ofNat_toNat]
    exact BitVec.setWidth_eq _
  have mantissa : BitVec.ofNat 52 (2 ^ 52 + (unpackMantissa b).toNat) = unpackMantissa b := by
    refine BitVec.eq_of_toNat_eq ?_
    rw [BitVec.toNat_ofNat, Nat.add_mod_left, Nat.mod_eq_of_lt small]
  unfold UnpackedFloat.unpack
  dsimp only
  rw [if_neg finite, if_neg normal]
  unfold UnpackedFloat.pack
  simp only [leading, log, biased, if_neg below, exponent, mantissa]
  exact packComponents_unpacked b

end Packing

/-- A finite double with a leading bit is made of the bits it is asked for. -/
theorem toBits_ofBits {bits : UInt64} (normal : bits.toNat / power 2 52 % power 2 11 ≠ 0)
    (finite : bits.toNat / power 2 52 % power 2 11 ≠ 2047) : (Float.ofBits bits).toBits = bits := by
  have exponent := toNat_unpackExponent bits.toBitVec
  refine UInt64.toBitVec_inj.mp (pack_unpack bits.toBitVec ?_ ?_)
  · intro none
    rw [none] at exponent
    exact normal exponent.symm
  · intro all
    rw [all] at exponent
    exact finite exponent.symm

/-! ## Doubles that are not zero -/

/-- The leading bit of an integer is in front of the point, so it is rounded to a double with a positive
exponent. -/
theorem le_nearestBits (num : Nat) : power 2 52 ≤ nearestBits num 1 := by
  have leading : -1 ≤ leadingExponent num 1 := by
    have log : Nat.log2 1 = 0 := by decide
    unfold leadingExponent
    dsimp only
    rw [log]
    split <;> omega
  have exponent : 1 ≤ (max (leadingExponent num 1 - 52) (-1074) + 1074).toNat := by omega
  have units := Nat.mul_le_mul_right (power 2 52) exponent
  unfold nearestBits
  dsimp only
  omega

/-- Such bits, of either sign, have a positive exponent, and not the greatest one. -/
theorem exponent_of_normal {bits : Nat} (normal : power 2 52 ≤ bits) (finite : bits < infinityBits) (negative : Bool) :
    let signed := if negative then bits + power 2 63 else bits
    signed < power 2 64 ∧ signed / power 2 52 % power 2 11 ≠ 0 ∧ signed / power 2 52 % power 2 11 ≠ 2047 := by
  rw [power_mantissa] at normal
  rw [infinityBits, power_mantissa] at finite
  intro signed
  rw [power_mantissa, power_exponent, power_word]
  cases negative with
  | false =>
      have eq : signed = bits := rfl
      omega
  | true =>
      have eq : signed = bits + 9223372036854775808 := rfl
      omega

/-- Bits with a positive exponent are those of no zero. -/
theorem viewBits_ne_zero {bits : Nat} (normal : bits / power 2 52 % power 2 11 ≠ 0) (sign : Bool) (exponent : Int) :
    viewBits bits ≠ .finite sign 0 exponent := by
  unfold viewBits
  dsimp only
  rw [if_neg normal, power_mantissa]
  split
  · split <;> exact nofun
  · intro eq
    have significand := (View.finite.inj eq).2.1
    omega

/-- An integer that is not zero is no zero as a double. -/
theorem view_ofInt {i : Int} {x : Float} (nonzero : i ≠ 0) (h : ofInt? i = some x) (sign : Bool)
    (exponent : Int) : view x ≠ .finite sign 0 exponent := by
  unfold ofInt? ofRatio at h
  rw [if_neg (Int.natAbs_ne_zero.mpr nonzero)] at h
  dsimp only at h
  split at h
  next below =>
    cases h
    obtain ⟨small, normal, finite⟩ :=
      exponent_of_normal (le_nearestBits i.natAbs) below (decide (i < 0))
    generalize (if decide (i < 0) = true then nearestBits i.natAbs 1 + power 2 63
      else nearestBits i.natAbs 1) = bits at small normal finite ⊢
    have same : (UInt64.ofNat bits).toNat = bits := UInt64.toNat_ofNat_of_lt' small
    rw [view, toBits_ofBits (by rwa [same]) (by rwa [same]), same]
    exact viewBits_ne_zero normal sign exponent
  · cases h

end ScopedLisp.Binary64
