import ScopedLisp.Number.Power

/-!
# ScopedLisp.Number.Binary64

Doubles as exact numbers, in both directions:

* `view` decodes a double into sign, significand and power of two;
* `ofRatio` is the double nearest to a quotient of natural numbers, a half going to
  the even neighbour, or nothing where that lies beyond the largest double.

Whatever turns an exact number into a double (an integer in mixed arithmetic, an
inexact quotient, a decimal literal) goes through `ofRatio`, so all of them round
alike.
-/

namespace ScopedLisp.Binary64

/-! ## Rounding a quotient -/

/-- The natural number nearest to `num / den`; a half goes to the even neighbour. -/
def roundDiv (num den : Nat) : Nat :=
  let quotient := num / den
  let doubled := 2 * (num % den)
  if doubled < den then quotient
  else if den < doubled then quotient + 1
  else quotient + quotient % 2

/-- A rounded quotient is within half a unit: `|num - roundDiv num den * den| ≤ den / 2`. -/
theorem roundDiv_near (num den : Nat) (h : 0 < den) :
    2 * num ≤ (2 * roundDiv num den + 1) * den ∧ 2 * roundDiv num den * den ≤ 2 * num + den := by
  have hm := Nat.mod_lt num h
  have hd : den * (num / den) + num % den = num := Nat.div_add_mod num den
  have hq : num / den % 2 ≤ 1 := by omega
  have he : num / den % 2 * den ≤ den := by
    simpa using Nat.mul_le_mul_right den hq
  unfold roundDiv
  dsimp only
  split
  · constructor <;> grind
  · split
    · constructor <;> grind
    · constructor <;> grind

/-! ## Encoding -/

/-- The exponent of the leading bit of `num / den`, for positive arguments: the greatest
`k` with `2 ^ k ≤ num / den`. -/
def leadingExponent (num den : Nat) : Int :=
  let estimate : Int := num.log2 - den.log2
  if den * power 2 estimate ≤ num * power 2 (-estimate) then estimate else estimate - 1

/-- The bits of the non-negative double nearest to `num / den`, for positive arguments, were
the range of exponents unbounded above.  The significand and the biased exponent are
added, not joined, so that a significand rounded up to the next power of two carries. -/
def nearestBits (num den : Nat) : Nat :=
  let exponent := max (leadingExponent num den - 52) (-1074)
  let significand := roundDiv (num * power 2 (-exponent)) (den * power 2 exponent)
  (exponent + 1074).toNat * power 2 52 + significand

/-- The bits of positive infinity; the bits of every finite non-negative double are below. -/
def infinityBits : Nat := 2047 * power 2 52

/-- The double nearest to `num / den`, negated on demand; none where it would be infinite. -/
def ofRatio (negative : Bool) (num den : Nat) : Option Float :=
  if num = 0 then some (if negative then -0.0 else 0.0)
  else
    let bits := nearestBits num den
    if bits < infinityBits then
      some (Float.ofBits (.ofNat (if negative then bits + power 2 63 else bits)))
    else none

/-- The double nearest to an integer. -/
def ofInt? (i : Int) : Option Float := ofRatio (i < 0) i.natAbs 1

/-! ## Decoding -/

/-- What the bits of a double say. -/
inductive View where
  | notANumber
  | infinite (negative : Bool)
  /-- The value `± significand * 2 ^ exponent`. -/
  | finite (negative : Bool) (significand : Nat) (exponent : Int)
  deriving DecidableEq, Repr

/-- Decode the bits of a double. -/
def viewBits (bits : Nat) : View :=
  let negative := power 2 63 ≤ bits
  let exponent : Nat := bits / power 2 52 % power 2 11
  let fraction : Nat := bits % power 2 52
  if exponent = 2047 then
    if fraction = 0 then .infinite negative else .notANumber
  else if exponent = 0 then .finite negative fraction (-1074)
  else .finite negative (power 2 52 + fraction) ((exponent : Int) - 1075)

/-- Decode a double. -/
def view (x : Float) : View := viewBits x.toBits.toNat

end ScopedLisp.Binary64
