import ScopedLisp.Proofs.FirstOrder.Term
import ScopedLisp.Proofs.Number.Integers
import ScopedLisp.Proofs.Primitive.IntegerDivision
import ScopedLisp.Proofs.Primitive.Numbers

/-!
# ScopedLisp.Proofs.FirstOrder.Operation

The primitives carry the operations of first-order programs out: applied to operands, they answer with what the
operation means, and where it means nothing they fail for want of a divisor.
-/

namespace ScopedLisp.FirstOrder

/-- The error of an integer division that meets a zero. -/
def zeroDivision (p : Primitive) : EvalError := .divisionByZero (some p.name)

/-! ## Rows of integers -/

variable {n : Nat}

theorem ofFn_int (v : Fin n → Int) :
    (List.ofFn fun i => Ty.value .integer (v i)) = ((List.ofFn v).map Number.int).map Value.number := by
  rw [List.map_map, List.map_ofFn]
  rfl

/-- The least of some integers is found from left to right. -/
theorem inf'_eq_foldl (v : Fin (n + 1) → Int) :
    Finset.univ.inf' Finset.univ_nonempty v = (List.ofFn fun i => v (Fin.succ i)).foldl min (v 0) := by
  have least : (List.ofFn v).min? = some ((List.ofFn fun i => v (Fin.succ i)).foldl min (v 0)) := by
    rw [List.ofFn_succ]
    exact List.min?_cons'
  obtain ⟨mem, le⟩ := List.min?_eq_some_iff.mp least
  obtain ⟨i, eq⟩ := (List.mem_ofFn' _ _).mp mem
  refine le_antisymm ?_ (Finset.le_inf' _ _ fun j _ => le _ ((List.mem_ofFn' _ _).mpr ⟨j, rfl⟩))
  rw [← eq]
  exact Finset.inf'_le _ (Finset.mem_univ i)

/-- The greatest of some integers is found from left to right. -/
theorem sup'_eq_foldl (v : Fin (n + 1) → Int) :
    Finset.univ.sup' Finset.univ_nonempty v = (List.ofFn fun i => v (Fin.succ i)).foldl max (v 0) := by
  have greatest : (List.ofFn v).max? = some ((List.ofFn fun i => v (Fin.succ i)).foldl max (v 0)) := by
    rw [List.ofFn_succ]
    exact List.max?_cons'
  obtain ⟨mem, le⟩ := List.max?_eq_some_iff.mp greatest
  obtain ⟨i, eq⟩ := (List.mem_ofFn' _ _).mp mem
  refine le_antisymm (Finset.sup'_le _ _ fun j _ => le _ ((List.mem_ofFn' _ _).mpr ⟨j, rfl⟩)) ?_
  rw [← eq]
  exact Finset.le_sup' _ (Finset.mem_univ i)

/-! ## Operations -/

namespace Operator

variable {σ τ : Ty}

/-- The result of an operation as the interpreter represents it. -/
def answer (result : Except Primitive τ.Den) : Except EvalError Value := (result.map τ.value).mapError zeroDivision

theorem arity_primitive (op : Operator σ n τ) : op.primitive.arity.broken? n = none := by
  rw [Arity.broken?_eq_none_iff]
  cases op <;> simp [primitive, Primitive.arity, Arity.atLeast, Arity.exactly]

/-- A primitive on numbers computes with integers. -/
theorem apply_integers (op : Operator .integer n τ) (takes : op.primitive.takesNumbers = true) (heap : Heap)
    (v : Fin n → Int) : op.primitive.apply heap (List.ofFn fun i => Ty.value .integer (v i)) =
      (op.primitive.onNumbers ((List.ofFn v).map .int)).mapError op.primitive.arithmeticError := by
  have count : op.primitive.arity.broken? ((List.ofFn v).map Number.int).length = none := by
    rw [List.length_map, List.length_ofFn, op.arity_primitive]
  rw [ofFn_int, Primitive.apply_numbers takes heap count]

/-- A primitive that divides integers divides the first of two by the second. -/
theorem apply_two {p : Primitive} (divides : p.dividesIntegers = true) (heap : Heap) (v : Fin 2 → Int) :
    p.apply heap (List.ofFn fun i => Ty.value .integer (v i)) =
      answer (τ := .integer) (divide p p.divided (v 0) (v 1)) := by
  change p.apply heap [.int (v 0), .int (v 1)] = _
  rw [Primitive.apply_ints divides, divide]
  split <;> rfl

/-- **Primitives do what operations mean.** -/
theorem apply_primitive (op : Operator σ n τ) (heap : Heap) (v : Fin n → σ.Den) :
    op.primitive.apply heap (List.ofFn fun i => σ.value (v i)) = answer (op.meaning v) := by
  cases op with
  | sum n =>
      rw [apply_integers (.sum n) rfl]
      simp only [primitive, Primitive.onNumbers, Number.sum_ints, List.sum_ofFn]
      rfl
  | product n =>
      rw [apply_integers (.product n) rfl]
      simp only [primitive, Primitive.onNumbers, Number.product_ints, List.prod_ofFn]
      rfl
  | difference n =>
      rw [apply_integers (.difference n) rfl, List.ofFn_succ, List.map_cons]
      cases n with
      | zero => rfl
      | succ n =>
          have subtracted := Number.difference_ints (v 0) (List.ofFn fun i : Fin (n + 1) => v i.succ)
          rw [List.sum_ofFn] at subtracted
          rw [List.ofFn_succ, List.map_cons] at subtracted ⊢
          simp only [primitive, Primitive.onNumbers, subtracted]
          rfl
  | least n =>
      rw [apply_integers (.least n) rfl, List.ofFn_succ, List.map_cons]
      simp only [primitive, Primitive.onNumbers, Number.minimum_ints, ← inf'_eq_foldl]
      rfl
  | greatest n =>
      rw [apply_integers (.greatest n) rfl, List.ofFn_succ, List.map_cons]
      simp only [primitive, Primitive.onNumbers, Number.maximum_ints, ← sup'_eq_foldl]
      rfl
  | quotient => exact apply_two rfl heap v
  | remainder => exact apply_two rfl heap v
  | modulus => exact apply_two rfl heap v
  | absolute =>
      rw [apply_integers .absolute rfl]
      simp only [meaning, Int.abs_eq_natAbs]
      rfl
  | equal =>
      rw [apply_integers .equal rfl]
      simp only [meaning, ← Number.eq_int]
      rfl
  | less =>
      rw [apply_integers .less rfl]
      simp only [meaning, ← Number.lt_int]
      rfl
  | greater =>
      rw [apply_integers .greater rfl]
      simp only [meaning, ← Number.lt_int]
      rfl
  | atMost =>
      rw [apply_integers .atMost rfl]
      simp only [meaning, ← Number.le_int]
      rfl
  | atLeast =>
      rw [apply_integers .atLeast rfl]
      simp only [meaning, ← Number.le_int]
      rfl
  | negation => rfl

end Operator

end ScopedLisp.FirstOrder
