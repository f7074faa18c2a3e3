import Mathlib.Algebra.BigOperators.Group.List.Basic
import Mathlib.Algebra.Order.Ring.Int
import ScopedLisp.Number

/-!
# ScopedLisp.Proofs.Number.Integers

Integers among the numbers: arithmetic with nothing but integers is exact and never fails, and their order is that
of the integers themselves.
-/

namespace ScopedLisp.Number

variable (a b : Int) (is : List Int)

/-! ## Arithmetic -/

/-- Integers are combined one after the other, and stay integers. -/
theorem foldlM_combine (onInts : Int → Int → Int) (onFloats : Float → Float → Float) :
    (is.map int).foldlM (combine onInts onFloats) (int a) = .ok (int (is.foldl onInts a)) := by
  induction is generalizing a with
  | nil => rfl
  | cons i is ih => exact ih (onInts a i)

/-- The sum of integers is their exact sum. -/
theorem sum_ints : sum (is.map int) = .ok (int is.sum) := by
  rw [sum, add, foldlM_combine, ← List.sum_eq_foldl]

/-- The product of integers is their exact product. -/
theorem product_ints : product (is.map int) = .ok (int is.prod) := by
  rw [product, mul, foldlM_combine, ← List.prod_eq_foldl]

/-- Integers taken from an integer one after the other leave what their sum does. -/
theorem difference_ints : difference (int a) (is.map int) = .ok (int (a - is.sum)) := by
  have folded : is.foldl (· - ·) a = a - is.sum := by
    induction is generalizing a with
    | nil => simp
    | cons i is ih => rw [List.foldl_cons, ih, List.sum_cons, Int.sub_sub]
  rw [difference, sub, foldlM_combine, folded]

/-! ## Order -/

/-- Integers are scaled by one to be compared, so they compare as they are. -/
theorem order?_int : order? (int a) (int b) = some (compare a b) := by
  have scale : (power 2 ((0 : Int) - min 0 0) : Int) = 1 := rfl
  simp only [order?, exact, Exact.order?, compareScaled, scale, mul_one]

/-- An integer is the smaller number exactly if it is the smaller integer. -/
theorem lt_int : (int a).lt (int b) = decide (a < b) := by
  rw [lt, order?_int, Bool.eq_iff_iff, beq_iff_eq, Option.some.injEq, compare_lt_iff_lt, decide_eq_true_iff]

/-- Integers are equal numbers exactly if they are the same integer. -/
theorem eq_int : (int a).eq (int b) = decide (a = b) := by
  rw [eq, order?_int, Bool.eq_iff_iff, beq_iff_eq, Option.some.injEq, compare_eq_iff_eq, decide_eq_true_iff]

/-- An integer is at most another as a number exactly if it is so as an integer. -/
theorem le_int : (int a).le (int b) = decide (a ≤ b) := by
  rw [le, lt_int, eq_int, ← Bool.decide_or, decide_eq_decide, ← le_iff_lt_or_eq]

/-- The least of some integers, found number by number, is their minimum. -/
theorem minimum_ints : minimum (int a) (is.map int) = int (is.foldl min a) := by
  rw [minimum]
  induction is generalizing a with
  | nil => rfl
  | cons i is ih =>
      rw [List.map_cons, List.foldl_cons, List.foldl_cons, lt_int, ← ih, min_comm, min_def_lt]
      simp only [decide_eq_true_eq, apply_ite int]

/-- The greatest of some integers, found number by number, is their maximum. -/
theorem maximum_ints : maximum (int a) (is.map int) = int (is.foldl max a) := by
  rw [maximum]
  induction is generalizing a with
  | nil => rfl
  | cons i is ih =>
      rw [List.map_cons, List.foldl_cons, List.foldl_cons, lt_int, ← ih, max_def_lt]
      simp only [decide_eq_true_eq, apply_ite int]

end ScopedLisp.Number
