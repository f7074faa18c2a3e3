import ScopedLisp.Primitive.Apply

/-!
# ScopedLisp.Proofs.Primitive.Numbers

What the primitives on numbers make of numbers.  All that they check about their arguments is right then, so what
they compute is left.
-/

namespace ScopedLisp.Primitive

variable {p : Primitive}

/-- The primitives that work on numbers of either kind. -/
def takesNumbers (p : Primitive) : Bool :=
  p matches .add | .sub | .mul | .div | .equal | .less | .greater | .atMost | .atLeast | .abs | .min | .max | .isZero

theorem numbers_map (heap : Heap) (p : Primitive) (xs : List Number) :
    p.numbers heap (xs.map .number) = .ok xs := by
  induction xs with
  | nil => rfl
  | cons x xs ih => simp only [List.map_cons, numbers, ih, Except.map]

/-- Applied to a right number of numbers, such a primitive computes with them. -/
theorem apply_numbers (takes : p.takesNumbers = true) (heap : Heap) {xs : List Number}
    (count : p.arity.broken? xs.length = none) :
    p.apply heap (xs.map .number) = (p.onNumbers xs).mapError p.arithmeticError := by
  have checked : checkCount p.name p.arity (xs.map Value.number).length = .ok () := by
    rw [checkCount, List.length_map, count]
  have computed : p.compute heap (xs.map .number) =
      p.numbers heap (xs.map .number) >>= fun xs => (p.onNumbers xs).mapError p.arithmeticError := by
    cases p <;> first | rfl | cases takes
  rw [apply, checked]
  change p.compute heap (xs.map .number) = _
  rw [computed, numbers_map]
  rfl

end ScopedLisp.Primitive
