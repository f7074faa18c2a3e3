import ScopedLisp.Proofs.Number.Division
import ScopedLisp.Proofs.Primitive.Numbers

/-!
# ScopedLisp.Proofs.Primitive.Division

The primitive `/`: it divides from left to right, stays exact as long as it can, and fails in two ways only, for want
of a divisor and for want of a double.
-/

namespace ScopedLisp

namespace Primitive

open Number

/-- What is divided by what: a number that stands alone divides 1. -/
def divisionOf (x : Number) : List Number → Number × List Number
  | [] => (.int 1, [x])
  | xs => (x, xs)

/-- The answer to a row of divisions. -/
def divisionAnswer (quotient : Except Number.Failure Number) : Except EvalError Value :=
  (quotient.map .number).mapError div.arithmeticError

/-- Division of numbers: the first by the product of the others, or one by it. -/
theorem apply_div (heap : Heap) (x : Number) (xs : List Number) :
    div.apply heap ((x :: xs).map .number) =
      divisionAnswer (Number.quotient (divisionOf x xs).1 (divisionOf x xs).2) := by
  have count : div.arity.broken? (x :: xs).length = none := by
    rw [Arity.broken?_eq_none_iff]
    exact ⟨by simp [arity, Arity.atLeast], nofun⟩
  rw [apply_numbers rfl heap count]
  cases xs <;> rfl

/-- A division answers with a number exactly if the quotient is it. -/
theorem divisionAnswer_eq_ok_iff {quotient : Except Number.Failure Number} {r : Number} :
    divisionAnswer quotient = .ok (.number r) ↔ quotient = .ok r := by
  cases quotient with
  | ok r' => simp [divisionAnswer, Except.map, Except.mapError]
  | error failure => simp [divisionAnswer, Except.map, Except.mapError]

/-- A division fails by a zero divisor exactly if the quotient does. -/
theorem divisionAnswer_eq_divisionByZero_iff {quotient : Except Number.Failure Number} :
    divisionAnswer quotient = .error (.divisionByZero none) ↔ quotient = .error .divisionByZero := by
  cases quotient with
  | ok r => simp [divisionAnswer, Except.map, Except.mapError]
  | error failure => cases failure <;> simp [divisionAnswer, Except.map, Except.mapError, arithmeticError]

/-- A row of divisions is answered with a number or with an error of the language. -/
theorem divisionAnswer_cases (quotient : Except Number.Failure Number) :
    (∃ r, divisionAnswer quotient = .ok (.number r)) ∨
      ∃ error, divisionAnswer quotient = .error error ∧
        (error = .divisionByZero none ∧ error.kind = "DivisionByZero" ∨
          ∃ cause, error = .overflow "/" cause ∧ error.kind = "NumericOverflow") := by
  cases quotient with
  | ok r => exact Or.inl ⟨r, rfl⟩
  | error failure =>
      refine Or.inr ⟨_, rfl, ?_⟩
      cases failure with
      | divisionByZero => exact Or.inl ⟨rfl, rfl⟩
      | integerTooLarge | quotientTooLarge => exact Or.inr ⟨_, rfl, rfl⟩

end Primitive

open Number Primitive

/-- **Division**: `/` divides from left to right, and a number that stands alone divides 1.

* It answers with a number, or fails with one of two errors of the language.  No double is ever divided by
  zero: a divisor that gets past the check for zero is not zero as a double either.
* Its number is where the divisions arrive.
* It fails for want of a divisor exactly if a zero is reached before a division overflows.
* Integers of which each divides what those before it leave are divided exactly, whatever their size and
  signs.
* Once a division is not exact, the answer is a double, if there is one. -/
theorem division_ends (heap : Heap) (x : Number) (xs : List Number) :
    let first := (divisionOf x xs).1
    let divisors := (divisionOf x xs).2
    let answer := div.apply heap ((x :: xs).map .number)
    ((∃ r, answer = .ok (.number r)) ∨
      ∃ error, answer = .error error ∧
        (error = .divisionByZero none ∧ error.kind = "DivisionByZero" ∨
          ∃ cause, error = .overflow "/" cause ∧ error.kind = "NumericOverflow")) ∧
    (∀ d ∈ divisors, d.isZero = false → ∀ y, d.toFloat = .ok y → (Number.float y).isZero = false) ∧
    (∀ r, answer = .ok (.number r) ↔ Arrives first divisors r) ∧
    (answer = .error (.divisionByZero none) ↔ ∃ before d after r,
      divisors = before ++ d :: after ∧ Arrives first before r ∧ d.isZero = true) ∧
    (∀ (a : Int) (is : List Int), first = .int a → divisors = is.map .int → DivideInTurn a is →
      ∃ q, answer = .ok (.int q) ∧ q * is.prod = a) ∧
    ∀ before d after r, divisors = before ++ d :: after → Arrives first before r → ¬HasExactQuotient r d →
      (∃ error, answer = .error error) ∨ ∃ z, answer = .ok (.number (.float z)) := by
  intro first divisors answer
  have eq : answer = divisionAnswer (Number.quotient first divisors) := apply_div heap x xs
  have ends : (∃ r, answer = .ok (.number r)) ∨ _ := eq ▸ divisionAnswer_cases _
  have ok_iff (r : Number) : answer = .ok (.number r) ↔ Arrives first divisors r := by
    rw [eq, divisionAnswer_eq_ok_iff, quotient_eq_ok_iff]
  refine ⟨ends, fun d _ nonzero y => isZero_toFloat nonzero, ok_iff, ?_, ?_, ?_⟩
  · rw [eq, divisionAnswer_eq_divisionByZero_iff, quotient_eq_divisionByZero_iff]
  · intro a is hfirst hdivisors divide
    obtain ⟨q, nonzero, product⟩ := divide.exists_quotient
    have arrives : Arrives first divisors (.int q) :=
      arrives_int_iff.mpr ⟨a, is, hfirst, hdivisors, nonzero, product⟩
    exact ⟨q, (ok_iff _).mpr arrives, product⟩
  · intro before d after r split front inexact
    rcases ends with ⟨s, h⟩ | ⟨error, h, _⟩
    · have arrives := (ok_iff s).mp h
      rw [split] at arrives
      obtain ⟨z, rfl⟩ := arrives.exists_float_of_inexact front inexact
      exact Or.inr ⟨z, h⟩
    · exact Or.inl ⟨error, h⟩

/-- Integers far beyond the doubles, of both signs. -/
example : Primitive.div.apply .empty [.int (-360000000000000000000006), .int 6, .int (-1)] =
    .ok (.int 60000000000000000000001) := by
  rfl

end ScopedLisp
