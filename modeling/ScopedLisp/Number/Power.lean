/-!
# ScopedLisp.Number.Power

Powers with an integer exponent, as factors of a quotient of natural numbers: the
quotient `num / den` times `base ^ k` is `num * power base k` over
`den * power base (-k)`, of which factors one is always one.
-/

namespace ScopedLisp

/-- The power `base ^ k`, or one where `k` is negative. -/
def power (base : Nat) (k : Int) : Nat := Nat.pow base k.toNat

/-- A negative exponent leaves a factor of one. -/
theorem power_of_nonpos (base : Nat) {k : Int} (h : k ≤ 0) : power base k = 1 := by
  rw [power, Int.toNat_of_nonpos h]
  rfl

/-- One more factor for one more in the exponent. -/
theorem power_add_one (base : Nat) {k : Int} (h : 0 ≤ k) :
    power base (k + 1) = power base k * base := by
  rw [power, Int.toNat_add h (by decide), power]
  rfl

theorem power_pos {base : Nat} (h : 0 < base) (k : Int) : 0 < power base k :=
  Nat.pow_pos h

end ScopedLisp
