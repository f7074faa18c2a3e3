import ScopedLisp.Number.Binary64

/-!
# ScopedLisp.Number.Shortest

The shortest decimal that reads back to a double.  The reals that round to a double
fill an interval around it; of the decimals in that interval those with the fewest
digits are chosen, of these the nearest to the double, and of two equally near ones
the even one.

All comparisons are between natural numbers.
-/

namespace ScopedLisp.Shortest

/-- The decimal `digits * 10 ^ exponent`. -/
structure Decimal where
  digits : Nat
  exponent : Int
  deriving DecidableEq, Repr

/-- The number of decimal digits. -/
def digitCount (n : Nat) : Nat := (Nat.toDigits 10 n).length

/-- A positive double's surroundings, in units of `num / den`: the double itself, the ends of
the interval that rounds to it, and whether the ends belong to the interval. -/
structure Surroundings where
  value : Nat
  low : Nat
  high : Nat
  closed : Bool
  num : Nat
  den : Nat

/-- The surroundings of `significand * 2 ^ exponent`.  The neighbour below a power of two is
only half as far away as the one above, except at the least exponent. -/
def Surroundings.ofDouble (significand : Nat) (exponent : Int) : Surroundings :=
  let narrow := significand = power 2 52 ∧ -1074 < exponent
  { value := 4 * significand
    low := 4 * significand - if narrow then 1 else 2
    high := 4 * significand + 2
    closed := significand % 2 = 0
    num := power 2 (exponent - 2)
    den := power 2 (2 - exponent) }

/-- Does `c * 10 ^ grid` round to the double? -/
def Surroundings.readsBack (s : Surroundings) (c : Nat) (grid : Int) : Bool :=
  let candidate := c * power 10 grid * s.den
  let unit := s.num * power 10 (-grid)
  if s.closed then s.low * unit ≤ candidate && candidate ≤ s.high * unit
  else s.low * unit < candidate && candidate < s.high * unit

/-- The decimal nearest to the double on the grid of multiples of `10 ^ grid`, if that or the
other neighbour of the double on this grid reads back. -/
def Surroundings.onGrid? (s : Surroundings) (grid : Int) : Option Decimal :=
  let num := s.value * s.num * power 10 (-grid)
  let den := s.den * power 10 grid
  let below := num / den
  let doubled := 2 * (num % den)
  let above : Bool := den < doubled || (doubled = den && below % 2 = 1)
  let first := if above then below + 1 else below
  let second := if above then below else below + 1
  if s.readsBack first grid then some ⟨first, grid⟩
  else if s.readsBack second grid then some ⟨second, grid⟩
  else none

/-- One more than the exponent of the leading decimal digit.  Every positive double has
a digit that stands within 400 places behind the point. -/
def Surroundings.magnitude (s : Surroundings) : Int :=
  digitCount (s.value * s.num * power 10 400 / s.den) - 400

/-- The same decimal without zeros at its end. -/
def Decimal.strip : (fuel : Nat) → Decimal → Decimal
  | 0, d => d
  | fuel + 1, d =>
    if d.digits % 10 = 0 && d.digits ≠ 0 then strip fuel ⟨d.digits / 10, d.exponent + 1⟩ else d

/-- Zeros at the end go into the exponent, so it does not get smaller. -/
theorem Decimal.exponent_le_strip (fuel : Nat) (d : Decimal) :
    d.exponent ≤ (d.strip fuel).exponent := by
  induction fuel generalizing d with
  | zero => exact Int.le_refl _
  | succ fuel ih =>
    rw [strip]
    split
    · exact Int.le_trans (Int.le_add_one (Int.le_refl d.exponent)) (ih _)
    · exact Int.le_refl _

/-- **Stripping keeps the value**: fewer units, each as much larger as its exponent says. -/
theorem Decimal.digits_strip (fuel : Nat) (d : Decimal) :
    (d.strip fuel).digits * power 10 ((d.strip fuel).exponent - d.exponent) = d.digits := by
  induction fuel generalizing d with
  | zero => simp [strip, power_of_nonpos]
  | succ fuel ih =>
    rw [strip]
    split
    case isTrue h =>
      have hz : d.digits % 10 = 0 := by simp at h; exact h.1
      have shorter := ih ⟨d.digits / 10, d.exponent + 1⟩
      have longer := exponent_le_strip fuel ⟨d.digits / 10, d.exponent + 1⟩
      generalize strip fuel ⟨d.digits / 10, d.exponent + 1⟩ = s at shorter longer ⊢
      change s.digits * power 10 (s.exponent - (d.exponent + 1)) = d.digits / 10 at shorter
      change d.exponent + 1 ≤ s.exponent at longer
      rw [show s.exponent - d.exponent = s.exponent - (d.exponent + 1) + 1 by omega,
        power_add_one 10 (by omega), ← Nat.mul_assoc, shorter]
      omega
    case isFalse => simp [power_of_nonpos]

/-- The shortest decimal that reads back to the positive double `significand * 2 ^ exponent`.
Seventeen digits always suffice. -/
def shortest (significand : Nat) (exponent : Int) : Decimal :=
  let s := Surroundings.ofDouble significand exponent
  let magnitude := s.magnitude
  let grids := (List.range 17).map fun (n : Nat) => magnitude - 1 - (n : Int)
  let decimal := (grids.findSome? s.onGrid?).getD ⟨0, 0⟩
  decimal.strip (digitCount decimal.digits)

end ScopedLisp.Shortest
