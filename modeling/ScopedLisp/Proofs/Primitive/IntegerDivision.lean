import Mathlib.Data.Rat.Floor
import Mathlib.Tactic.Linarith
import ScopedLisp.Primitive.Apply

/-!
# ScopedLisp.Proofs.Primitive.IntegerDivision

The laws of the three integer divisions, on integers of any size and sign.

```
a = b * quotient + remainder      the quotient is rounded towards zero, the remainder has the sign of a
modulo ≡ a  (mod b)               the modulus has the sign of b
```

All of it rests on the remainder: where it is smaller than the divisor and on the dividend's side of
zero, the quotient is the truncated one (`eq_truncated_of_remainder`), and the modulus is the remainder
itself or one divisor away from it (`IntegerDivision.fmod_eq`).
-/

namespace ScopedLisp

namespace IntegerDivision

/-- Zero, or of the same sign. -/
def Sided (x y : Int) : Prop := x = 0 ∨ x.sign = y.sign

instance (x y : Int) : Decidable (Sided x y) := inferInstanceAs (Decidable (_ ∨ _))

/-- A rational rounded towards zero. -/
def truncated (x : ℚ) : Int := if 0 ≤ x then ⌊x⌋ else ⌈x⌉

variable {a b q r : Int}

theorem sided_iff {x y : Int} : Sided x y ↔ x = 0 ∨ 0 < x ∧ 0 < y ∨ x < 0 ∧ y < 0 := by
  unfold Sided
  rcases lt_trichotomy x 0 with hx | hx | hx <;> rcases lt_trichotomy y 0 with hy | hy | hy <;>
    simp [Int.sign_eq_neg_one_of_neg, Int.sign_eq_one_of_pos, hx, hy] <;> omega

/-! ## The remainder -/

theorem sided_tmod (a b : Int) : Sided (a.tmod b) a := by
  by_cases divides : b ∣ a
  · exact Or.inl (Int.dvd_iff_tmod_eq_zero.mp divides)
  · right
    rw [Int.sign_tmod, if_neg divides]

theorem abs_tmod_lt (a : Int) (nonzero : b ≠ 0) : |a.tmod b| < |b| := by
  have small : a.natAbs % b.natAbs < b.natAbs := Nat.mod_lt _ (Int.natAbs_pos.mpr nonzero)
  rw [← Int.natAbs_tmod] at small
  rw [Int.abs_eq_natAbs, Int.abs_eq_natAbs]
  exact_mod_cast small

/-! ## The quotient -/

theorem eq_truncated_of_pos (pos : 0 < b) (division : a = b * q + r) (small : |r| < b)
    (side : Sided r a) : q = truncated (a / b) := by
  have pos' : (0 : ℚ) < b := Int.cast_pos.mpr pos
  have le_div (n : Int) : (n : ℚ) ≤ a / b ↔ b * n ≤ a := by
    rw [le_div_iff₀' pos']
    exact_mod_cast Iff.rfl
  have div_le (n : Int) : (a / b : ℚ) ≤ n ↔ a ≤ b * n := by
    rw [div_le_iff₀' pos']
    exact_mod_cast Iff.rfl
  obtain ⟨lower, upper⟩ := abs_lt.mp small
  rw [sided_iff] at side
  by_cases ha : 0 ≤ a
  · have above : (0 : ℚ) ≤ a / b := by simpa using (le_div 0).mpr (by simpa using ha)
    have next : ¬((q + 1 : Int) : ℚ) ≤ a / b := by
      rw [le_div]
      linarith
    rw [truncated, if_pos above, eq_comm, Int.floor_eq_iff]
    exact ⟨(le_div q).mpr (by omega), by simpa using next⟩
  · have below : ¬(0 : ℚ) ≤ a / b := by simpa using mt (le_div 0).mp (by simpa using ha)
    have next : ¬(a / b : ℚ) ≤ (q - 1 : Int) := by
      rw [div_le]
      linarith
    rw [truncated, if_neg below, eq_comm, Int.ceil_eq_iff]
    exact ⟨by simpa using next, (div_le q).mpr (by omega)⟩

/-- Of a division that leaves a remainder smaller than the divisor and on the dividend's side of zero, the
quotient is the exact one rounded towards zero. -/
theorem eq_truncated_of_remainder (nonzero : b ≠ 0) (division : a = b * q + r) (small : |r| < |b|)
    (side : Sided r a) : q = truncated (a / b) := by
  rcases lt_or_gt_of_ne nonzero with negative | positive
  · -- both signs changed, the quotient is the same
    have flipped := eq_truncated_of_pos (a := -a) (b := -b) (q := q) (r := -r) (by omega)
      (by rw [division]; ring) (by rwa [abs_neg, ← abs_of_neg negative])
      (by rw [sided_iff] at side ⊢; omega)
    rw [flipped]
    push_cast
    rw [neg_div_neg_eq]
  · exact eq_truncated_of_pos positive division (by rwa [abs_of_pos positive] at small) side

/-! ## The modulus -/

/-- The modulus is the remainder where that is on the divisor's side of zero, and one divisor away from it
where it is not. -/
theorem fmod_eq (a b : Int) :
    a.fmod b = if Sided (a.tmod b) b then a.tmod b else a.tmod b + b := by
  have side := sided_iff.mp (sided_tmod a b)
  have divides : b ∣ a ↔ a.tmod b = 0 := Int.dvd_iff_tmod_eq_zero
  simp only [Int.fmod_eq_tmod, divides, sided_iff]
  split <;> split <;> omega

/-- So the modulus is on the divisor's side of zero, and smaller than the divisor. -/
theorem sided_fmod (a : Int) (nonzero : b ≠ 0) : Sided (a.fmod b) b ∧ |a.fmod b| < |b| := by
  have small := abs_tmod_lt a nonzero
  rw [fmod_eq]
  split
  next side => exact ⟨side, small⟩
  next other =>
    rw [sided_iff] at other ⊢
    rw [Int.abs_eq_natAbs, Int.abs_eq_natAbs] at small ⊢
    omega

/-! ## The laws -/

/-- What quotient, remainder and modulus of two integers are to each other. -/
structure Laws (a b quotient remainder modulus : Int) : Prop where
  division : a = b * quotient + remainder
  remainder_lt : |remainder| < |b|
  remainder_sided : Sided remainder a
  quotient_eq : quotient = truncated (a / b)
  modulus_sided : Sided modulus b
  modulus_lt : |modulus| < |b|
  dvd_sub_modulus : b ∣ a - modulus
  modulus_eq : modulus = if Sided remainder b then remainder else remainder + b

theorem laws (a : Int) (nonzero : b ≠ 0) : Laws a b (a.tdiv b) (a.tmod b) (a.fmod b) where
  division := (Int.mul_tdiv_add_tmod a b).symm
  remainder_lt := abs_tmod_lt a nonzero
  remainder_sided := sided_tmod a b
  quotient_eq := eq_truncated_of_remainder nonzero (Int.mul_tdiv_add_tmod a b).symm
    (abs_tmod_lt a nonzero) (sided_tmod a b)
  modulus_sided := (sided_fmod a nonzero).1
  modulus_lt := (sided_fmod a nonzero).2
  dvd_sub_modulus := Int.dvd_self_sub_fmod
  modulus_eq := fmod_eq a b

end IntegerDivision

namespace Primitive

/-- The primitives that divide integers. -/
def dividesIntegers (p : Primitive) : Bool := p matches .quotient | .remainder | .modulo

/-- What such a primitive makes of two integers, the second of them not zero. -/
def divided (p : Primitive) (a b : Int) : Int :=
  match p with
  | .quotient => a.tdiv b
  | .remainder => a.tmod b
  | _ => a.fmod b

/-- Applied to two integers, such a primitive divides them, and fails in its own name where the second is
zero. -/
theorem apply_ints {p : Primitive} (divides : p.dividesIntegers = true) (heap : Heap) (a b : Int) :
    p.apply heap [.int a, .int b] =
      if b = 0 then .error (.divisionByZero (some p.name)) else .ok (.int (p.divided a b)) := by
  cases p with
  | quotient =>
      rw [divided, ← truncatingQuotient_eq_tdiv]
      rfl
  | remainder =>
      rw [divided, ← sub_mul_truncatingQuotient]
      rfl
  | modulo => rfl
  | _ => cases divides

end Primitive

/-- **Integer division**: `quotient`, `remainder` and `modulo` answer two integers, the second of them not
zero, with integers that keep to the laws; and a changed sign of either changes that of the quotient. -/
theorem integer_division_laws (heap : Heap) (a : Int) {b : Int} (nonzero : b ≠ 0) :
    ∃ q r m : Int,
      Primitive.quotient.apply heap [.int a, .int b] = .ok (.int q) ∧
      Primitive.remainder.apply heap [.int a, .int b] = .ok (.int r) ∧
      Primitive.modulo.apply heap [.int a, .int b] = .ok (.int m) ∧
      IntegerDivision.Laws a b q r m ∧
      Primitive.quotient.apply heap [.int (-a), .int b] = .ok (.int (-q)) ∧
      Primitive.quotient.apply heap [.int a, .int (-b)] = .ok (.int (-q)) := by
  have answer {p : Primitive} (divides : p.dividesIntegers = true) (a : Int) {b : Int} (nonzero : b ≠ 0) :
      p.apply heap [.int a, .int b] = .ok (.int (p.divided a b)) := by
    rw [Primitive.apply_ints divides, if_neg nonzero]
  refine ⟨a.tdiv b, a.tmod b, a.fmod b, answer rfl a nonzero, answer rfl a nonzero, answer rfl a nonzero,
    IntegerDivision.laws a nonzero, ?_, ?_⟩
  · rw [answer rfl (-a) nonzero, Primitive.divided, Int.neg_tdiv]
  · rw [answer rfl a (neg_ne_zero.mpr nonzero), Primitive.divided, Int.tdiv_neg]

/-- Minus seven by two: the remainder is on the dividend's side of zero, the modulus on the divisor's. -/
theorem integer_division_laws_mixed_signs :
    (2 : Int) ≠ 0 ∧
      Primitive.quotient.apply .empty [.int (-7), .int 2] = .ok (.int (-3)) ∧
      Primitive.remainder.apply .empty [.int (-7), .int 2] = .ok (.int (-1)) ∧
      Primitive.modulo.apply .empty [.int (-7), .int 2] = .ok (.int 1) ∧
      IntegerDivision.Laws (-7) 2 (-3) (-1) 1 ∧
      Primitive.quotient.apply .empty [.int 7, .int 2] = .ok (.int 3) ∧
      Primitive.quotient.apply .empty [.int (-7), .int (-2)] = .ok (.int 3) := by
  obtain ⟨q, r, m, hq, hr, hm, laws, changed, changed'⟩ :=
    integer_division_laws .empty (-7) (b := 2) (by decide)
  cases hq
  cases hr
  cases hm
  exact ⟨by decide, rfl, rfl, rfl, laws, changed, changed'⟩

end ScopedLisp
